import TypedQuery.Proofs.Execution.Gathering
/-!
What collecting visits.  It passes by a fragment that it met before, even while that fragment is
being entered.  Nothing is missed that way, for all that is reached through the fragment was visited
when the fragment is left.  So the groups have just the fields that can be attained, in the order of
a depth-first walk: `Execution.groups_exact`.
-/

namespace TypedQuery
namespace Selector

/-! ## What a run has visited -/

/-- What was collected are the fields at the spots that were visited, each at its first visit.  Each
fragment that was met is still around, or all that is reached through it was visited. -/
structure Tracks (s : Selector) (object : String) (sets : List (List Selection))
    (around : List String) (state : Collected) (visited : List Spot) : Prop where
  fields : state.fields.map some = visited.eraseDups.map (s.node? sets)
  inside : around ⊆ state.met
  homes : ∀ spot ∈ visited, ∀ name, spot.home = .fragment name → name ∈ state.met
  met : ∀ name ∈ state.met, name ∈ around ∨ s.spreadVisits object around name ⊆ visited

variable {s : Selector} {object : String} {selections : List Selection} {state last : Collected}
  {names : List String} {sets : List (List Selection)} {around : List String}
  {visited more : List Spot}

namespace Tracks

/-- What was visited before may be visited again. -/
theorem again (h : s.Tracks object sets around state visited) (hsub : more ⊆ visited) :
    s.Tracks object sets around state (visited ++ more) where
  fields := by rw [h.fields, eraseDups_append_of_subset hsub]
  inside := h.inside
  homes spot hspot := h.homes spot ((List.mem_append.1 hspot).elim id fun hin => hsub hin)
  met name hname := (h.met name hname).imp_right fun hin =>
    List.Subset.trans hin (List.subset_append_left _ _)

theorem take (h : s.Tracks object sets around state visited) {spot : Spot} {node : FieldNode}
    (hnew : spot ∉ visited) (hnode : s.node? sets spot = some node)
    (hhome : ∀ name, spot.home = .fragment name → name ∈ around) :
    s.Tracks object sets around (state.take node) (visited ++ [spot]) where
  fields := by
    rw [eraseDups_concat, if_neg hnew, Collected.take, List.map_append, List.map_append, h.fields,
      List.map_singleton, List.map_singleton, hnode]
  inside := h.inside
  homes other hother name hname := by
    rcases List.mem_append.1 hother with hother | hother
    · exact h.homes other hother name hname
    · rw [List.mem_singleton.1 hother] at hname
      exact h.inside (hhome name hname)
  met name hname := (h.met name hname).imp_right fun hin =>
    List.Subset.trans hin (List.subset_append_left _ _)

theorem enter (h : s.Tracks object sets around state visited) (name : String) :
    s.Tracks object sets (name :: around) (state.meet name) visited where
  fields := h.fields
  inside := List.cons_subset_cons name h.inside
  homes spot hspot other hother := List.mem_cons_of_mem name (h.homes spot hspot other hother)
  met other hother := by
    rcases List.mem_cons.1 hother with rfl | hother
    · exact .inl List.mem_cons_self
    · exact (h.met other hother).imp (List.mem_cons_of_mem name) fun hin =>
        List.Subset.trans (spreadVisits_cons_subset around other name) hin

/-- All that is reached through a fragment was visited when the fragment is left, and then nothing
is missed by passing by the fragments that were met inside it. -/
theorem leave {name : String} (h : s.Tracks object sets (name :: around) state visited)
    (hdone : s.spreadVisits object around name ⊆ visited) :
    s.Tracks object sets around state visited where
  fields := h.fields
  inside := List.subset_of_cons_subset h.inside
  homes := h.homes
  met other hother := by
    rcases h.met other hother with hin | hin
    · rcases List.mem_cons.1 hin with rfl | hin
      · exact .inr hdone
      · exact .inl hin
    · exact .inr fun spot hspot =>
        (mem_spreadVisits_cons hspot).elim (fun h => hin h) fun h => hdone h

end Tracks

/-- The selections stand at some places of a home, which may be entered, and none of them was
visited. -/
structure Stands (s : Selector) (sets : List (List Selection)) (around : List String)
    (visited : List Spot) (home : Home) (places : List Nat) (place : Nat)
    (selections : List Selection) : Prop where
  reads : ∀ index rest, s.node? sets { home := home, places := places ++ (place + index) :: rest } =
    fieldAt? selections (index :: rest)
  ahead : ∀ index rest, { home := home, places := places ++ (place + index) :: rest } ∉ visited
  inside : ∀ name, home = .fragment name → name ∈ around

namespace Stands

variable {home : Home} {places : List Nat} {place : Nat} {first : Selection} {rest : List Selection}

theorem next (h : s.Stands sets around visited home places place (first :: rest))
    (object : String) :
    s.Stands sets around
      (visited ++ s.selectionSpots object (s.spreadVisits object around) home places place first)
      home places (place + 1) rest where
  reads index inner := by
    rw [← fieldAt?_succ first, ← h.reads, Nat.add_assoc, Nat.add_comm 1]
  ahead index inner hin := by
    rcases List.mem_append.1 hin with hin | hin
    · refine h.ahead (index + 1) inner ?_
      rwa [Nat.add_comm index, ← Nat.add_assoc]
    · rcases stands_of_mem_selection (fun _ _ => home_of_mem_spreadVisits) first hin with
        ⟨-, rest, hplaces⟩ | ⟨name, hout, hhome⟩
      · have hplace := (List.cons.inj (List.append_cancel_left hplaces)).1
        omega
      · exact hout (h.inside name hhome)
  inside := h.inside

theorem inline {location : Location} {condition : Option String} {directives : List Directive}
    {inner : List Selection} (h : s.Stands sets around visited home places place
      (.inline location condition directives inner :: rest)) :
    s.Stands sets around visited home (places ++ [place]) 0 inner where
  reads index more := by
    rw [List.append_assoc, List.singleton_append, Nat.zero_add]
    exact h.reads 0 (index :: more)
  ahead index more hin := by
    rw [List.append_assoc, List.singleton_append] at hin
    exact h.ahead 0 _ hin
  inside := h.inside

/-- Nothing of a fragment was visited before it is met. -/
theorem fragment (h : s.Tracks object sets around state visited) {name : String} {frag : Fragment}
    (hnew : name ∉ state.met) (hfrag : s.fragment? name = some frag) :
    s.Stands sets (name :: around) visited (.fragment name) [] 0 frag.selections where
  reads index more := by
    rw [node?, writtenAt?, hfrag, Nat.zero_add]
    rfl
  ahead index more hin := hnew (h.homes _ hin name rfl)
  inside other hother := by
    cases hother
    exact List.mem_cons_self

/-- Nothing of a set was visited by those before it. -/
theorem set {index : Nat} {set : List Selection} (hset : sets[index]? = some set)
    (hbefore : ∀ spot ∈ visited, ∀ other, spot.home = .set other → other < index) :
    s.Stands sets [] visited (.set index) [] 0 set where
  reads place more := by
    rw [node?, writtenAt?, hset, Nat.zero_add]
    rfl
  ahead place more hin := Nat.lt_irrefl index (hbefore _ hin index rfl)
  inside other hother := by cases hother

end Stands

/-! ## What a run visits -/

variable {home : Home} {places : List Nat} {place : Nat}

/-- A selection that is passed by leads to nothing new. -/
theorem Tracks.subset_of_pass (h : s.Tracks object sets around state visited)
    {selection : Selection} (hpass : s.choose object state.met selection = .pass) :
    s.selectionSpots object (s.spreadVisits object around) home places place selection ⊆
      visited := by
  cases selection with
  | field head inner =>
    rw [choose] at hpass
    split at hpass
    · cases hpass
    · next hincluded =>
      rw [selectionSpots, if_neg hincluded]
      exact List.nil_subset _
  | spread location name directives =>
    rw [selectionSpots]
    split
    · next hincluded =>
      rw [choose, hincluded, Bool.not_true, Bool.false_or] at hpass
      split at hpass
      · next hmet =>
        rcases h.met name (List.contains_iff_mem.1 hmet) with hin | hin
        · rw [spreadVisits_of_mem hin]
          exact List.nil_subset _
        · exact hin
      · split at hpass
        · split at hpass <;> cases hpass
        · cases hpass
    · exact List.nil_subset _
  | inline location condition directives inner =>
    rw [choose] at hpass
    split at hpass
    · cases hpass
    · next hboth =>
      rw [selectionSpots, if_neg hboth]
      exact List.nil_subset _

theorem selectionSpots_of_meeting {spread : String → List Spot} {met : List String} {name : String}
    {selection : Selection} (h : s.Meeting met name selection) :
    s.selectionSpots object spread home places place selection = spread name := by
  obtain ⟨location, directives, rfl, hincluded, -⟩ := h
  rw [selectionSpots, if_pos hincluded]

/-- Collecting visits what a walk visits that enters a fragment at each of its spreads. -/
theorem Collects.tracks (h : s.Collects object selections state names last)
    (hstands : s.Stands sets around visited home places place selections)
    (htracks : s.Tracks object sets around state visited) :
    s.Tracks object sets around last
      (visited ++
        s.spotsFrom object (s.spreadVisits object around) home places place selections) := by
  induction h generalizing around visited home places place with
  | nil =>
    rw [spotsFrom, List.append_nil]
    exact htracks
  | pass h _ ih =>
    rw [spotsFrom, ← List.append_assoc]
    exact ih (hstands.next object) (htracks.again (htracks.subset_of_pass h))
  | take h _ ih =>
    have hnext := hstands.next object
    obtain ⟨head, inner, rfl, hincluded, rfl⟩ := of_choose_take h
    rw [spotsFrom, ← List.append_assoc]
    rw [selectionSpots, if_pos hincluded] at hnext ⊢
    exact ih hnext (htracks.take (hstands.ahead 0 []) (hstands.reads 0 []) hstands.inside)
  | @mark _ _ name _ _ _ h _ ih =>
    obtain ⟨hmeeting, hfails⟩ := of_choose_mark h
    have hnext := hstands.next object
    have hnil : s.spreadVisits object around name = [] := by
      refine List.eq_nil_iff_forall_not_mem.2 fun spot hspot => ?_
      obtain ⟨frag, -, hfrag, happlies, -⟩ := (mem_spreadVisits around name).1 hspot
      exact hfails frag hfrag happlies
    rw [spotsFrom, ← List.append_assoc]
    rw [selectionSpots_of_meeting hmeeting, hnil, List.append_nil] at hnext ⊢
    refine ih hnext ((htracks.enter name).leave ?_)
    rw [hnil]
    exact List.nil_subset visited
  | @enter _ _ name _ _ _ _ _ _ h _ _ ihinner ih =>
    obtain ⟨hmeeting, hfrag, happlies⟩ := of_choose_enter h
    have hnext := hstands.next object
    have hnew := hmeeting.not_mem
    have hinner := ihinner (Stands.fragment htracks hnew hfrag) (htracks.enter name)
    have hspread : s.spreadVisits object _ name = _ :=
      spreadVisits_eq (fun hin => hnew (htracks.inside hin)) hfrag
    rw [if_pos happlies] at hspread
    rw [← hspread] at hinner
    rw [spotsFrom, ← List.append_assoc]
    rw [selectionSpots_of_meeting hmeeting] at hnext ⊢
    exact ih hnext (hinner.leave (List.subset_append_right visited _))
  | descend h _ _ ihinner ih =>
    have hnext := hstands.next object
    obtain ⟨location, condition, directives, rfl, hboth⟩ := of_choose_descend h
    rw [spotsFrom, ← List.append_assoc]
    rw [selectionSpots, if_pos hboth] at hnext ⊢
    exact ih hnext (ihinner hstands.inline htracks)

theorem CollectsAll.tracks {rest : List (List Selection)}
    (h : s.CollectsAll object rest state names last) {index : Nat}
    (hrest : ∀ offset, sets[index + offset]? = rest[offset]?)
    (hbefore : ∀ spot ∈ visited, ∀ other, spot.home = .set other → other < index)
    (htracks : s.Tracks object sets [] state visited) :
    s.Tracks object sets [] last (visited ++ (rest.zipIdx index).flatMap fun (set, index) =>
      s.spotsFrom object (s.spreadVisits object []) (.set index) [] 0 set) := by
  induction h generalizing index visited with
  | nil =>
    rw [List.zipIdx_nil, List.flatMap_nil, List.append_nil]
    exact htracks
  | @cons set rest _ _ _ _ _ hset _ ih =>
    have hfirst := hset.tracks (Stands.set (hrest 0) hbefore) htracks
    rw [List.zipIdx_cons, List.flatMap_cons, ← List.append_assoc]
    refine ih (fun offset => ?_) (fun spot hspot other hother => ?_) hfirst
    · rw [Nat.add_assoc, Nat.add_comm 1, hrest, List.getElem?_cons_succ]
    · rcases List.mem_append.1 hspot with hspot | hspot
      · exact Nat.lt_succ_of_lt (hbefore spot hspot other hother)
      · rcases stands_of_mem_spotsFrom (fun _ _ => home_of_mem_spreadVisits) set hspot with
          ⟨hhome, -⟩ | ⟨name, -, hhome⟩
        · rw [hhome] at hother
          cases hother
          exact Nat.lt_succ_self index
        · rw [hhome] at hother
          cases hother

/-- The fields that are collected are those at the spots of the walk, each at its first visit. -/
theorem collect_eq_visits (s : Selector) (object : String) (sets : List (List Selection)) :
    (s.collect object sets).map some = (s.visits object sets).eraseDups.map (s.node? sets) := by
  obtain ⟨names, hruns⟩ := s.exists_collectsAll object sets .empty
  have hstart : s.Tracks object sets [] .empty [] :=
    { fields := rfl
      inside := List.nil_subset _
      homes := fun _ hspot => absurd hspot List.not_mem_nil
      met := fun _ hname => absurd hname List.not_mem_nil }
  have hbefore (spot : Spot) (hspot : spot ∈ []) (other : Nat) (_ : spot.home = .set other) :
      other < 0 := absurd hspot List.not_mem_nil
  exact (hruns.tracks (fun offset => by rw [Nat.zero_add]) hbefore hstart).fields

end Selector

/-! ## Groups in order -/

namespace FieldGroup

/-- Groups come in the order in which their keys were met. -/
theorem keys_ofNodes (nodes : List FieldNode) :
    (ofNodes nodes).map (·.key) = (nodes.map fun node => node.responseKey).eraseDups := by
  induction nodes using List.reverseRecOn with
  | nil => rfl
  | append_singleton nodes node ih =>
    rw [ofNodes_concat, keys_insert, List.map_append, List.map_singleton, eraseDups_concat, ih]
    exact if_congr List.mem_eraseDups rfl rfl

/-- A field joins the group of its key at the end, and leaves the others alone. -/
theorem nodes_insert {node : FieldNode} {groups : List FieldGroup} {group : FieldGroup}
    (hnodup : (groups.map (·.key)).Nodup) (h : group ∈ insert node groups) :
    (group.key ≠ node.responseKey ∧ group ∈ groups) ∨
      (group.key = node.responseKey ∧
        ((∃ old ∈ groups, old.key = group.key ∧ group.nodes = old.nodes ++ [node]) ∨
          (node.responseKey ∉ groups.map (·.key) ∧ group.nodes = [node]))) := by
  induction groups with
  | nil =>
    obtain rfl := List.mem_singleton.1 h
    exact .inr ⟨rfl, .inr ⟨List.not_mem_nil, rfl⟩⟩
  | cons first rest ih =>
    obtain ⟨hfirst, hrest⟩ := List.nodup_cons.1 hnodup
    rw [insert] at h
    by_cases hkey : first.key = node.responseKey
    · rw [if_pos hkey] at h
      rcases List.mem_cons.1 h with rfl | h
      · exact .inr ⟨hkey, .inl ⟨first, List.mem_cons_self, rfl, rfl⟩⟩
      · refine .inl ⟨fun hsame => hfirst ?_, List.mem_cons_of_mem first h⟩
        exact List.mem_map.2 ⟨group, h, hsame.trans hkey.symm⟩
    · rw [if_neg hkey] at h
      rcases List.mem_cons.1 h with rfl | h
      · exact .inl ⟨hkey, List.mem_cons_self⟩
      · rcases ih hrest h with ⟨hother, hin⟩ | ⟨hsame, ⟨old, hold, hjoin⟩ | ⟨hnew, hnodes⟩⟩
        · exact .inl ⟨hother, List.mem_cons_of_mem first hin⟩
        · exact .inr ⟨hsame, .inl ⟨old, List.mem_cons_of_mem first hold, hjoin⟩⟩
        · refine .inr ⟨hsame, .inr ⟨?_, hnodes⟩⟩
          rw [List.map_cons, List.mem_cons, not_or]
          exact ⟨Ne.symm hkey, hnew⟩

/-- A group has all the fields of its key, in their order. -/
theorem nodes_of_mem_ofNodes {nodes : List FieldNode} {group : FieldGroup}
    (h : group ∈ ofNodes nodes) :
    group.nodes = nodes.filter fun node => node.responseKey = group.key := by
  induction nodes using List.reverseRecOn generalizing group with
  | nil => cases h
  | append_singleton nodes node ih =>
    rw [ofNodes_concat] at h
    rw [List.filter_append]
    rcases nodes_insert (nodup_keys nodes) h with ⟨hother, hin⟩ | ⟨hsame, hjoin⟩
    · rw [ih hin, List.filter_cons_of_neg (by simpa using Ne.symm hother), List.filter_nil,
        List.append_nil]
    · rw [List.filter_cons_of_pos (by simpa using hsame.symm), List.filter_nil]
      rcases hjoin with ⟨old, hold, hkey, hnodes⟩ | ⟨hnew, hnodes⟩
      · rw [hnodes, ih hold, hkey]
      · have hnone : (nodes.filter fun node => node.responseKey = group.key) = [] := by
          rw [List.filter_eq_nil_iff]
          intro other hother hkey
          rw [keys_ofNodes, List.mem_eraseDups] at hnew
          refine hnew (List.mem_map.2 ⟨other, hother, ?_⟩)
          rw [of_decide_eq_true hkey, hsame]
        rw [hnodes, hnone, List.nil_append]

end FieldGroup

/-! ## What collecting comes to -/

/-- The response key of the field that stands at a spot. -/
def Selector.keyAt? (s : Selector) (sets : List (List Selection)) (spot : Spot) : Option String :=
  (s.node? sets spot).map fun node => node.responseKey

/-- The groups have the fields at the spots that are attained from the sets, each once and in the
group of its response key.  The spots are in the order in which a depth-first walk comes to them
first, and so are the groups and the fields of a group. -/
structure Selector.Groups (s : Selector) (object : String) (sets : List (List Selection))
    (spots : List Spot) (groups : List FieldGroup) : Prop where
  nodup : spots.Nodup
  attained : ∀ spot, spot ∈ spots ↔
    ∃ index set, sets[index]? = some set ∧ s.Attains object [] spot (.set index) [] set
  depthFirst : spots = (s.visits object sets).eraseDups
  placed : ∀ spot ∈ spots, ∃ group ∈ groups, s.keyAt? sets spot = some group.key
  keys : groups.map (·.key) = (spots.filterMap (s.keyAt? sets)).eraseDups
  nodup_keys : (groups.map (·.key)).Nodup
  nodes : ∀ group ∈ groups, group.nodes ≠ [] ∧ group.nodes.map some =
    (spots.filter fun spot => s.keyAt? sets spot = some group.key).map (s.node? sets)

theorem Selector.groups_collect (s : Selector) (object : String) (sets : List (List Selection)) :
    s.Groups object sets (s.visits object sets).eraseDups
      (FieldGroup.ofNodes (s.collect object sets)) := by
  have hcollect := s.collect_eq_visits object sets
  refine
    { nodup := nodup_eraseDups _
      attained := fun spot => List.mem_eraseDups.trans mem_visits
      depthFirst := rfl
      placed := fun spot hspot => ?_
      keys := ?_
      nodup_keys := FieldGroup.nodup_keys _
      nodes := fun group hgroup => ⟨List.cons_ne_nil _ _, ?_⟩ }
  · have hin : s.node? sets spot ∈ (s.collect object sets).map some :=
      hcollect ▸ List.mem_map_of_mem hspot
    obtain ⟨node, hnode, hat⟩ := List.mem_map.1 hin
    obtain ⟨group, hgroup, hkey, -⟩ := FieldGroup.exists_group hnode
    refine ⟨group, hgroup, ?_⟩
    rw [keyAt?, ← hat, hkey]
    rfl
  · rw [FieldGroup.keys_ofNodes, map_eq_filterMap_read hcollect]
    rfl
  · rw [FieldGroup.nodes_of_mem_ofNodes hgroup]
    exact map_some_filter_read hcollect _ _

/-- Collecting ends without a bound on its depth, also when fragments spread themselves.  It enters
no fragment twice, and groups the fields at the spots that are attained. -/
theorem Execution.groups_exact (exec : Execution) (object : String)
    (sets : List (List Selection)) :
    (∃ entered last, exec.selector.CollectsAll object sets .empty entered last ∧
      entered.Nodup ∧ FieldGroup.ofNodes last.fields = exec.groups object sets ∧
      ∀ entered' last', exec.selector.CollectsAll object sets .empty entered' last' →
        entered' = entered ∧ last' = last) ∧
    ∃ spots, exec.selector.Groups object sets spots (exec.groups object sets) := by
  refine ⟨?_, (exec.selector.visits object sets).eraseDups, ?_⟩
  · obtain ⟨entered, hruns⟩ := exec.selector.exists_collectsAll object sets .empty
    exact ⟨entered, _, hruns, hruns.fresh.nodup, rfl, fun _ _ hother => hruns.unique hother⟩
  · exact exec.selector.groups_collect object sets

end TypedQuery
