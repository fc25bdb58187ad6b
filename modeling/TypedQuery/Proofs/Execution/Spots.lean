import Mathlib.Data.Finset.Card
import TypedQuery.Proofs.Execution.Collecting
import TypedQuery.Proofs.Schema.Build
/-!
Where the fields of an object type stand.  A spot names one field of a document, so that fields
which look the same are told apart.  A spot is attained from selections when nothing on the way to
it is left out.  `Selector.visits` walks over the spots in depth-first order and enters a fragment
at each of its spreads, and it comes to just the spots that are attained: `Selector.mem_visits`.
-/

namespace TypedQuery

/-! ## Spots -/

/-- Selections that no field or fragment stands around: one of the sets that are collected, or the
selections of a fragment. -/
inductive Home where
  | set (index : Nat)
  | fragment (name : String)
  deriving DecidableEq, Repr

/-- Where a field stands: the places of the inline fragments around it, and its own. -/
structure Spot where
  home : Home
  places : List Nat
  deriving DecidableEq, Repr

/-- The field at some places of selections. -/
def fieldAt? (selections : List Selection) : List Nat → Option FieldNode
  | [] => none
  | [place] =>
    match selections[place]? with
    | some (.field head inner) => some { head with selections := inner }
    | _ => none
  | place :: next :: rest =>
    match selections[place]? with
    | some (.inline _ _ _ inner) => fieldAt? inner (next :: rest)
    | _ => none

theorem fieldAt?_succ (first : Selection) (selections : List Selection) (place : Nat)
    (rest : List Nat) :
    fieldAt? (first :: selections) ((place + 1) :: rest) = fieldAt? selections (place :: rest) := by
  cases rest with
  | nil => rw [fieldAt?, fieldAt?, List.getElem?_cons_succ]
  | cons next rest => rw [fieldAt?, fieldAt?, List.getElem?_cons_succ]

/-- To an object of some type, a fragment applies that is on the object type itself, on a union of
which it is a member, or on an interface that it states. -/
theorem Schema.applies_iff_belongs {schema : Schema} {condition object : String} :
    schema.applies condition object = true ↔
      condition = object ∨
        (∃ union, schema.type? condition = some (.union union) ∧ object ∈ union.members) ∨
        ∃ interface, schema.type? condition = some (.interface interface) ∧
          ∃ type, .object type ∈ schema.types.values ∧ type.name = object ∧
            condition ∈ type.interfaces := by
  rw [applies, Bool.or_eq_true, beq_iff_eq]
  refine or_congr_right ?_
  unfold isPossible
  cases schema.type? condition with
  | none => simp
  | some type => cases type <;> simp [mem_implementers]

namespace Selector

variable (s : Selector) (object : String)

/-- The selections of a home. -/
def writtenAt? (sets : List (List Selection)) : Home → Option (List Selection)
  | .set index => sets[index]?
  | .fragment name => (s.fragment? name).map (·.selections)

/-- The field that stands at a spot. -/
def node? (sets : List (List Selection)) (spot : Spot) : Option FieldNode :=
  (s.writtenAt? sets spot.home).bind fun selections => fieldAt? selections spot.places

/-- A condition holds of the object type when there is one. -/
def Meets (condition : Option String) : Prop :=
  ∀ type, condition = some type → s.schema.applies type object = true

theorem meets_iff {condition : Option String} :
    s.Meets object condition ↔
      (condition.all fun type => s.schema.applies type object) = true := by
  cases condition with
  | none => exact ⟨fun _ => rfl, fun _ _ htype => by cases htype⟩
  | some type => exact ⟨fun h => h type rfl, fun h _ htype => Option.some.inj htype ▸ h⟩

/-- The spot is reached from selections that stand at some places of a home: the field is included
and so is what stands around it, and each fragment on the way applies to the object type, as
`Schema.applies_iff_belongs` spells out.  None of the fragments to be avoided is entered. -/
inductive Attains (s : Selector) (object : String) (avoided : List String) (spot : Spot) :
    Home → List Nat → List Selection → Prop
  | field {home : Home} {places : List Nat} {selections inner : List Selection} {place : Nat}
      {head : FieldHead} (h : selections[place]? = some (.field head inner))
      (hincluded : isIncluded s.bindings head.directives = true)
      (hspot : spot = { home := home, places := places ++ [place] }) :
      Attains s object avoided spot home places selections
  | spread {home : Home} {places : List Nat} {selections : List Selection} {place : Nat}
      {location : Location} {name : String} {directives : List Directive} {frag : Fragment}
      (h : selections[place]? = some (.spread location name directives))
      (hincluded : isIncluded s.bindings directives = true) (hname : name ∉ avoided)
      (hfrag : s.fragment? name = some frag)
      (happlies : s.schema.applies frag.condition object = true)
      (hin : Attains s object avoided spot (.fragment name) [] frag.selections) :
      Attains s object avoided spot home places selections
  | inline {home : Home} {places : List Nat} {selections inner : List Selection} {place : Nat}
      {location : Location} {condition : Option String} {directives : List Directive}
      (h : selections[place]? = some (.inline location condition directives inner))
      (hincluded : isIncluded s.bindings directives = true)
      (hmeets : s.Meets object condition)
      (hin : Attains s object avoided spot home (places ++ [place]) inner) :
      Attains s object avoided spot home places selections

variable {s object} {avoided : List String} {spot : Spot} {home : Home} {places : List Nat}
  {selections : List Selection}

theorem Attains.mono {more : List String} (h : s.Attains object avoided spot home places selections)
    (hsub : more ⊆ avoided) : s.Attains object more spot home places selections := by
  induction h with
  | field h hincluded hspot => exact .field h hincluded hspot
  | spread h hincluded hname hfrag happlies _ ih =>
    exact .spread h hincluded (fun hin => hname (hsub hin)) hfrag happlies ih
  | inline h hincluded hmeets _ ih => exact .inline h hincluded hmeets ih

/-- The spot is reached through the fragment, which is not entered again on the way. -/
def AttainsThrough (s : Selector) (object : String) (avoided : List String) (spot : Spot)
    (name : String) : Prop :=
  ∃ frag, name ∉ avoided ∧ s.fragment? name = some frag ∧
    s.schema.applies frag.condition object = true ∧
    s.Attains object (name :: avoided) spot (.fragment name) [] frag.selections

/-- Either no way to the spot needs to enter the fragment, or the spot is reached through it. -/
theorem Attains.avoid (h : s.Attains object avoided spot home places selections) (name : String) :
    s.Attains object (name :: avoided) spot home places selections ∨
      s.AttainsThrough object avoided spot name := by
  induction h with
  | field h hincluded hspot => exact .inl (.field h hincluded hspot)
  | @spread _ _ _ _ _ other _ frag h hincluded hother hfrag happlies _ ih =>
    rcases ih with hin | hin
    · by_cases hname : other = name
      · subst hname
        exact .inr ⟨frag, hother, hfrag, happlies, hin⟩
      · refine .inl (.spread h hincluded ?_ hfrag happlies hin)
        rw [List.mem_cons, not_or]
        exact ⟨hname, hother⟩
    · exact .inr hin
  | inline h hincluded hmeets _ ih =>
    exact ih.imp_left fun hin => .inline h hincluded hmeets hin

theorem attainsThrough_iff {name : String} :
    s.AttainsThrough object avoided spot name ↔
      ∃ frag, name ∉ avoided ∧ s.fragment? name = some frag ∧
        s.schema.applies frag.condition object = true ∧
        s.Attains object avoided spot (.fragment name) [] frag.selections := by
  constructor
  · rintro ⟨frag, hname, hfrag, happlies, hin⟩
    exact ⟨frag, hname, hfrag, happlies, hin.mono (List.subset_cons_self _ _)⟩
  · rintro ⟨frag, hname, hfrag, happlies, hin⟩
    rcases hin.avoid name with hin | hin
    · exact ⟨frag, hname, hfrag, happlies, hin⟩
    · exact hin

/-! ## The walk -/

mutual

/-- The spots of a selection that stands at a place, depth first; `spread` gives those of a
fragment. -/
def selectionSpots (s : Selector) (object : String) (spread : String → List Spot) (home : Home)
    (places : List Nat) (place : Nat) : Selection → List Spot
  | .field head _ =>
    if isIncluded s.bindings head.directives then
      [{ home := home, places := places ++ [place] }]
    else []
  | .spread _ name directives =>
    if isIncluded s.bindings directives then spread name else []
  | .inline _ condition directives inner =>
    if isIncluded s.bindings directives &&
        condition.all fun type => s.schema.applies type object then
      s.spotsFrom object spread home (places ++ [place]) 0 inner
    else []

/-- The spots of selections of which the first stands at the given place. -/
def spotsFrom (s : Selector) (object : String) (spread : String → List Spot) (home : Home)
    (places : List Nat) (place : Nat) : List Selection → List Spot
  | [] => []
  | first :: rest =>
    s.selectionSpots object spread home places place first ++
      s.spotsFrom object spread home places (place + 1) rest

end

/-- How many fragments are not among the given ones. -/
def unmet (s : Selector) (names : List String) : Nat :=
  ((s.fragments.map (·.name)).toFinset \ names.toFinset).card

theorem unmet_le (names : List String) : s.unmet names ≤ s.fragments.length := by
  refine Nat.le_trans (Finset.card_le_card Finset.sdiff_subset) ?_
  exact Nat.le_trans (List.toFinset_card_le _) (Nat.le_of_eq (List.length_map _))

theorem unmet_mono {names more : List String} (h : names ⊆ more) :
    s.unmet more ≤ s.unmet names := by
  refine Finset.card_le_card (Finset.sdiff_subset_sdiff (Finset.Subset.refl _) fun name hname => ?_)
  exact List.mem_toFinset.2 (h (List.mem_toFinset.1 hname))

theorem unmet_cons_lt {names : List String} {name : String} {frag : Fragment}
    (hname : name ∉ names) (hfrag : s.fragment? name = some frag) :
    s.unmet (name :: names) < s.unmet names := by
  obtain ⟨hin, hfound⟩ := fragmentOf?_mem hfrag
  rw [unmet, List.toFinset_cons, Finset.sdiff_insert]
  refine Finset.card_erase_lt_of_mem (Finset.mem_sdiff.2 ⟨?_, ?_⟩)
  · exact List.mem_toFinset.2 (List.mem_map.2 ⟨frag, hin, hfound⟩)
  · exact fun h => hname (List.mem_toFinset.1 h)

/-- The spots of a fragment, which is entered wherever it is spread but not inside itself. -/
def spreadVisits (s : Selector) (object : String) (around : List String) (name : String) :
    List Spot :=
  if _hname : name ∈ around then []
  else
    match _hfrag : s.fragment? name with
    | some frag =>
      if s.schema.applies frag.condition object then
        s.spotsFrom object (s.spreadVisits object (name :: around)) (.fragment name) [] 0
          frag.selections
      else []
    | none => []
termination_by s.unmet around
decreasing_by exact unmet_cons_lt _hname _hfrag

theorem spreadVisits_of_mem {around : List String} {name : String} (h : name ∈ around) :
    s.spreadVisits object around name = [] := by
  rw [spreadVisits, dif_pos h]

theorem spreadVisits_of_none {around : List String} {name : String}
    (h : s.fragment? name = none) : s.spreadVisits object around name = [] := by
  rw [spreadVisits]
  split
  · rfl
  · split
    · next hfrag => rw [h] at hfrag; cases hfrag
    · rfl

theorem spreadVisits_eq {around : List String} {name : String} {frag : Fragment}
    (hname : name ∉ around) (hfrag : s.fragment? name = some frag) :
    s.spreadVisits object around name =
      if s.schema.applies frag.condition object then
        s.spotsFrom object (s.spreadVisits object (name :: around)) (.fragment name) [] 0
          frag.selections
      else [] := by
  rw [spreadVisits, dif_neg hname]
  split
  · next other hother =>
    obtain rfl := Option.some.inj (hfrag.symm.trans hother)
    rfl
  · next hnone => rw [hfrag] at hnone; cases hnone

/-! ## What the walk comes to -/

section Spreads

variable {spread : String → List Spot}

theorem mem_spotsFrom {place : Nat} :
    spot ∈ s.spotsFrom object spread home places place selections ↔
      ∃ index selection, selections[index]? = some selection ∧
        spot ∈ s.selectionSpots object spread home places (place + index) selection := by
  induction selections generalizing place with
  | nil =>
    rw [spotsFrom]
    refine ⟨fun h => (List.not_mem_nil h).elim, ?_⟩
    rintro ⟨index, selection, h, -⟩
    cases h
  | cons first rest ih =>
    rw [spotsFrom, List.mem_append, ih]
    constructor
    · rintro (h | ⟨index, selection, hat, h⟩)
      · exact ⟨0, first, rfl, h⟩
      · exact ⟨index + 1, selection, hat, by rwa [Nat.add_assoc, Nat.add_comm 1] at h⟩
    · rintro ⟨_ | index, selection, hat, h⟩
      · obtain rfl := Option.some.inj hat
        exact .inl h
      · exact .inr ⟨index, selection, hat, by rwa [Nat.add_assoc, Nat.add_comm 1]⟩

theorem mem_spotsFrom_of_attains
    (hspread : ∀ name, spot ∈ spread name ↔ s.AttainsThrough object avoided spot name)
    (h : s.Attains object avoided spot home places selections) :
    spot ∈ s.spotsFrom object spread home places 0 selections := by
  induction h with
  | @field _ _ _ _ place _ h hincluded hspot =>
    refine mem_spotsFrom.2 ⟨place, _, h, ?_⟩
    rw [selectionSpots, if_pos hincluded, Nat.zero_add]
    exact List.mem_singleton.2 hspot
  | @spread _ _ _ place _ _ _ frag h hincluded hname hfrag happlies hin _ =>
    refine mem_spotsFrom.2 ⟨place, _, h, ?_⟩
    rw [selectionSpots, if_pos hincluded, hspread]
    exact attainsThrough_iff.2 ⟨frag, hname, hfrag, happlies, hin⟩
  | @inline _ _ _ _ place _ _ _ h hincluded hmeets _ ih =>
    refine mem_spotsFrom.2 ⟨place, _, h, ?_⟩
    rw [selectionSpots, hincluded, (s.meets_iff object).1 hmeets, Bool.and_self, if_pos rfl,
      Nat.zero_add]
    exact ih

mutual

theorem attains_of_mem_selection
    (hspread : ∀ name, spot ∈ spread name ↔ s.AttainsThrough object avoided spot name)
    {home : Home} : ∀ (selection : Selection) {places : List Nat}
    {place : Nat} {selections : List Selection},
    selections[place]? = some selection →
    spot ∈ s.selectionSpots object spread home places place selection →
      s.Attains object avoided spot home places selections
  | .field head inner, places, place, selections, hat, h => by
    rw [selectionSpots] at h
    split at h
    · next hincluded => exact .field hat hincluded (List.mem_singleton.1 h)
    · cases h
  | .spread location name directives, places, place, selections, hat, h => by
    rw [selectionSpots] at h
    split at h
    · next hincluded =>
      obtain ⟨frag, hname, hfrag, happlies, hin⟩ := attainsThrough_iff.1 ((hspread name).1 h)
      exact .spread hat hincluded hname hfrag happlies hin
    · cases h
  | .inline location condition directives inner, places, place, selections, hat, h => by
    rw [selectionSpots] at h
    split at h
    · next hboth =>
      obtain ⟨hincluded, hmeets⟩ := Bool.and_eq_true_iff.1 hboth
      refine .inline hat hincluded ((s.meets_iff object).2 hmeets) ?_
      refine attains_of_mem_spotsFrom hspread inner (fun index => ?_) h
      rw [Nat.zero_add]
    · cases h

theorem attains_of_mem_spotsFrom
    (hspread : ∀ name, spot ∈ spread name ↔ s.AttainsThrough object avoided spot name)
    {home : Home} : ∀ (rest : List Selection) {places : List Nat}
    {place : Nat} {selections : List Selection},
    (∀ index, selections[place + index]? = rest[index]?) →
    spot ∈ s.spotsFrom object spread home places place rest →
      s.Attains object avoided spot home places selections
  | [], places, place, selections, hat, h => by
    rw [spotsFrom] at h
    cases h
  | first :: rest, places, place, selections, hat, h => by
    rw [spotsFrom] at h
    rcases List.mem_append.1 h with h | h
    · exact attains_of_mem_selection hspread first (hat 0) h
    · refine attains_of_mem_spotsFrom hspread rest (fun index => ?_) h
      rw [Nat.add_assoc, Nat.add_comm 1, hat, List.getElem?_cons_succ]

end

theorem mem_spotsFrom_iff
    (hspread : ∀ name, spot ∈ spread name ↔ s.AttainsThrough object avoided spot name) :
    spot ∈ s.spotsFrom object spread home places 0 selections ↔
      s.Attains object avoided spot home places selections := by
  refine ⟨fun h => ?_, mem_spotsFrom_of_attains hspread⟩
  refine attains_of_mem_spotsFrom hspread selections (fun index => ?_) h
  rw [Nat.zero_add]

mutual

/-- A walk over a selection stays at its place, but for the fragments that it enters. -/
theorem stands_of_mem_selection
    (hspread : ∀ name, ∀ spot ∈ spread name,
      ∃ other, other ∉ avoided ∧ spot.home = .fragment other) :
    ∀ (selection : Selection) {places : List Nat} {place : Nat},
    spot ∈ s.selectionSpots object spread home places place selection →
      (spot.home = home ∧ ∃ inner, spot.places = places ++ place :: inner) ∨
        ∃ other, other ∉ avoided ∧ spot.home = .fragment other
  | .field head inner, places, place, h => by
    rw [selectionSpots] at h
    split at h
    · rw [List.mem_singleton.1 h]
      exact .inl ⟨rfl, [], rfl⟩
    · cases h
  | .spread location name directives, places, place, h => by
    rw [selectionSpots] at h
    split at h
    · exact .inr (hspread name spot h)
    · cases h
  | .inline location condition directives inner, places, place, h => by
    rw [selectionSpots] at h
    split at h
    · refine (stands_of_mem_spotsFrom hspread inner h).imp_left ?_
      rintro ⟨hhome, index, rest, hplaces⟩
      refine ⟨hhome, (0 + index) :: rest, ?_⟩
      rw [hplaces, List.append_assoc, List.singleton_append]
    · cases h

theorem stands_of_mem_spotsFrom
    (hspread : ∀ name, ∀ spot ∈ spread name,
      ∃ other, other ∉ avoided ∧ spot.home = .fragment other) :
    ∀ (selections : List Selection) {places : List Nat} {place : Nat},
    spot ∈ s.spotsFrom object spread home places place selections →
      (spot.home = home ∧ ∃ index inner, spot.places = places ++ (place + index) :: inner) ∨
        ∃ other, other ∉ avoided ∧ spot.home = .fragment other
  | [], places, place, h => by
    rw [spotsFrom] at h
    cases h
  | first :: rest, places, place, h => by
    rw [spotsFrom] at h
    rcases List.mem_append.1 h with h | h
    · exact (stands_of_mem_selection hspread first h).imp_left fun ⟨hhome, inner, hplaces⟩ =>
        ⟨hhome, 0, inner, hplaces⟩
    · refine (stands_of_mem_spotsFrom hspread rest h).imp_left ?_
      rintro ⟨hhome, index, inner, hplaces⟩
      refine ⟨hhome, index + 1, inner, ?_⟩
      rw [hplaces, Nat.add_assoc, Nat.add_comm 1]

end

end Spreads

/-- A spread that is entered outside of some fragments comes to what is reached through it. -/
theorem mem_spreadVisits (around : List String) (name : String) :
    spot ∈ s.spreadVisits object around name ↔ s.AttainsThrough object around spot name := by
  by_cases hname : name ∈ around
  · rw [spreadVisits_of_mem hname]
    refine ⟨fun h => (List.not_mem_nil h).elim, ?_⟩
    rintro ⟨frag, hout, -⟩
    exact absurd hname hout
  cases hfrag : s.fragment? name with
  | none =>
    rw [spreadVisits_of_none hfrag]
    refine ⟨fun h => (List.not_mem_nil h).elim, ?_⟩
    rintro ⟨frag, -, hfrag', -⟩
    rw [hfrag] at hfrag'
    cases hfrag'
  | some frag =>
    have hlt := unmet_cons_lt hname hfrag
    rw [spreadVisits_eq hname hfrag]
    constructor
    · intro h
      split at h
      · next happlies =>
        exact ⟨frag, hname, hfrag, happlies, (mem_spotsFrom_iff (mem_spreadVisits _)).1 h⟩
      · cases h
    · rintro ⟨other, -, hother, happlies, hin⟩
      obtain rfl := Option.some.inj (hfrag.symm.trans hother)
      rw [if_pos happlies]
      exact (mem_spotsFrom_iff (mem_spreadVisits _)).2 hin
termination_by s.unmet around

/-- Outside of fewer fragments a spread comes to more, but only to what the other fragment comes to
as well. -/
theorem mem_spreadVisits_cons {around : List String} {name other : String}
    (h : spot ∈ s.spreadVisits object around name) :
    spot ∈ s.spreadVisits object (other :: around) name ∨
      spot ∈ s.spreadVisits object around other := by
  rw [mem_spreadVisits] at h
  rw [mem_spreadVisits, mem_spreadVisits]
  by_cases hsame : name = other
  · exact .inr (hsame ▸ h)
  obtain ⟨frag, hname, hfrag, happlies, hin⟩ := h
  rcases hin.avoid other with hin | ⟨found, hother, hfound, hfits, hin⟩
  · refine .inl ⟨frag, ?_, hfrag, happlies, hin.mono ?_⟩
    · rw [List.mem_cons, not_or]
      exact ⟨hsame, hname⟩
    · exact (List.Perm.swap other name around).subset
  · refine .inr ⟨found, ?_, hfound, hfits, hin.mono ?_⟩
    · exact fun hin => hother (List.mem_cons_of_mem name hin)
    · exact List.cons_subset_cons other (List.subset_cons_self name around)

theorem spreadVisits_cons_subset (around : List String) (name other : String) :
    s.spreadVisits object (other :: around) name ⊆ s.spreadVisits object around name := by
  intro spot h
  rw [mem_spreadVisits] at h ⊢
  obtain ⟨frag, hname, hfrag, happlies, hin⟩ := h
  refine ⟨frag, fun hin => hname (List.mem_cons_of_mem other hin), hfrag, happlies, hin.mono ?_⟩
  exact List.cons_subset_cons name (List.subset_cons_self other around)

/-- What is reached from selections stands among them or in a fragment that may be entered. -/
theorem Attains.home_eq (h : s.Attains object avoided spot home places selections) :
    spot.home = home ∨ ∃ name, name ∉ avoided ∧ spot.home = .fragment name := by
  induction h with
  | field _ _ hspot => exact .inl (congrArg Spot.home hspot)
  | @spread _ _ _ _ _ name _ _ _ _ hname _ _ _ ih =>
    exact .inr (ih.elim (fun hhome => ⟨name, hname, hhome⟩) id)
  | inline _ _ _ _ ih => exact ih

theorem home_of_mem_spreadVisits {around : List String} {name : String}
    (h : spot ∈ s.spreadVisits object around name) :
    ∃ other, other ∉ around ∧ spot.home = .fragment other := by
  obtain ⟨frag, hname, hfrag, happlies, hin⟩ := attainsThrough_iff.1 ((mem_spreadVisits _ _).1 h)
  exact hin.home_eq.elim (fun hhome => ⟨name, hname, hhome⟩) id

/-- The spots of several sets of selections, one set after the other. -/
def visits (s : Selector) (object : String) (sets : List (List Selection)) : List Spot :=
  sets.zipIdx.flatMap fun (set, index) =>
    s.spotsFrom object (s.spreadVisits object []) (.set index) [] 0 set

/-- The walk comes to the spots that are attained from one of the sets. -/
theorem mem_visits {sets : List (List Selection)} :
    spot ∈ s.visits object sets ↔
      ∃ index set, sets[index]? = some set ∧ s.Attains object [] spot (.set index) [] set := by
  rw [visits, List.mem_flatMap]
  constructor
  · rintro ⟨⟨set, index⟩, hat, h⟩
    refine ⟨index, set, List.mem_zipIdx_iff_getElem?.1 hat, ?_⟩
    exact (mem_spotsFrom_iff (mem_spreadVisits _)).1 h
  · rintro ⟨index, set, hat, h⟩
    refine ⟨(set, index), List.mem_zipIdx_iff_getElem?.2 hat, ?_⟩
    exact (mem_spotsFrom_iff (mem_spreadVisits _)).2 h

end Selector
end TypedQuery
