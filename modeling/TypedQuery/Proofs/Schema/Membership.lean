import Mathlib.Data.List.Nodup
import TypedQuery.Proofs.Schema.Build
/-!
Which types belong to which.  Of a schema that was built, each name stands for one type, its scalars
are those that every schema starts with and those that were added, and what belongs to an abstract
type is an object (`Blueprint.exists_object_of_isPossible`).
-/

namespace TypedQuery

namespace Keyed

variable {α : Type}

theorem nodup_keys_put {key : String} {value : α} {entries : Keyed α} (h : entries.keys.Nodup) :
    (put key value entries).keys.Nodup := by
  rw [keys_put]
  split
  · exact h
  · next hkey =>
    refine List.nodup_append.2 ⟨h, List.nodup_singleton key, fun a ha b hb he => hkey ?_⟩
    rw [← List.mem_singleton.1 hb, ← he]
    exact ha

theorem nodup_keys_ofList (entries : List (String × α)) : (ofList entries).keys.Nodup :=
  List.foldlRecOn (motive := fun table : Keyed α => table.keys.Nodup) entries _ List.nodup_nil
    fun _ h _ _ => nodup_keys_put h

theorem lookup_of_mem {entries : Keyed α} (h : entries.keys.Nodup) {key : String} {value : α}
    (hmem : (key, value) ∈ entries) : entries.lookup key = some value := by
  refine lookup_eq_some_of_unique hmem fun other hother => ?_
  exact congrArg Prod.snd (List.inj_on_of_nodup_map h hother hmem rfl)

theorem lookup_filter (keep : String → Bool) {entries : Keyed α} {key : String}
    (h : keep key = true) :
    (entries.filter fun entry => keep entry.1).lookup key = entries.lookup key := by
  induction entries with
  | nil => rfl
  | cons entry rest ih =>
    obtain ⟨name, value⟩ := entry
    by_cases hkey : key = name
    · subst hkey
      rw [List.filter_cons, if_pos h, List.lookup_cons_self, List.lookup_cons_self]
    · have hne : (key == name) = false := by simpa using hkey
      rw [List.filter_cons]
      split
      · rw [List.lookup_cons, List.lookup_cons, hne]
        exact ih
      · rw [List.lookup_cons, hne]
        exact ih

/-- Where the keys are distinct, their order is nothing to the look-up. -/
theorem lookup_perm {entries others : Keyed α} (hkeys : entries.keys.Nodup)
    (h : entries.Perm others) (key : String) : entries.lookup key = others.lookup key := by
  have hothers : others.keys.Nodup := (h.map Prod.fst).nodup_iff.1 hkeys
  ext value
  constructor
  · intro hvalue
    exact lookup_of_mem hothers (h.mem_iff.1 (mem_of_lookup hvalue))
  · intro hvalue
    exact lookup_of_mem hkeys (h.mem_iff.2 (mem_of_lookup hvalue))

end Keyed

namespace BuiltIn

theorem map_name_scalars : scalars.map ScalarDef.name = names := rfl

theorem nodup_names : names.Nodup := by decide

theorem exists_scalar {name : String} (h : isName name = true) :
    ∃ scalar ∈ scalars, scalar.name = name := by
  have hmem : name ∈ scalars.map ScalarDef.name := by
    rw [map_name_scalars]
    simpa [isName] using h
  exact List.mem_map.1 hmem

theorem isName_of_mem {scalar : ScalarDef} (h : scalar ∈ scalars) : isName scalar.name = true := by
  have hmem : scalar.name ∈ names := by
    rw [← map_name_scalars]
    exact List.mem_map_of_mem h
  simpa [isName] using hmem

theorem eq_of_name {first second : ScalarDef} (hfirst : first ∈ scalars) (hsecond : second ∈ scalars)
    (hname : first.name = second.name) : first = second := by
  have hnodup : (scalars.map ScalarDef.name).Nodup := by
    rw [map_name_scalars]
    exact nodup_names
  exact List.inj_on_of_nodup_map hnodup hfirst hsecond hname

end BuiltIn

namespace Blueprint

variable {b : Blueprint} {schema : Schema} (hb : b.build = .ok schema)

include hb

theorem mem_types_iff {name : String} {type : TypeDef} :
    (name, type) ∈ schema.types ↔ schema.type? name = some type := by
  refine ⟨fun h => Keyed.lookup_of_mem ?_ h, Schema.mem_types⟩
  obtain ⟨-, htypes, -⟩ := build_eq_ok.1 hb
  rw [htypes]
  exact Keyed.nodup_keys_ofList _

/-- A scalar is one that every schema starts with, or was added. -/
theorem scalar_cases {name : String} {scalar : ScalarDef}
    (h : schema.type? name = some (.scalar scalar)) :
    scalar ∈ BuiltIn.scalars ∨ .scalar scalar ∈ b.added := by
  obtain ⟨-, htypes, -⟩ := build_eq_ok.1 hb
  have hmem := Schema.mem_types h
  rw [htypes] at hmem
  rcases List.mem_append.1 (Keyed.mem_ofList hmem) with hmem | hmem
  · obtain ⟨builtIn, hbuiltIn, he⟩ := List.mem_map.1 hmem
    obtain rfl : builtIn = scalar := TypeDef.scalar.inj (Prod.mk.inj he).2
    exact .inl hbuiltIn
  · obtain ⟨type, htype, he⟩ := List.mem_map.1 hmem
    obtain rfl : type = .scalar scalar := (Prod.mk.inj he).2
    exact .inr htype

theorem exists_object_of_mem_members {name : String} {union : UnionDef}
    (h : schema.type? name = some (.union union)) {member : String}
    (hmem : member ∈ union.members) :
    ∃ type, schema.type? member = some (.object type) := by
  have hcheck := checkType_of_mem hb (Schema.mem_types h)
  exact checkMember_eq_ok.1 (forM_eq_ok.1 hcheck member hmem)

theorem exists_object_of_mem_implementers {interface object : String}
    (h : object ∈ schema.implementers interface) :
    ∃ type, schema.type? object = some (.object type) := by
  obtain ⟨type, htype, rfl, -⟩ := Schema.mem_implementers.1 h
  obtain ⟨⟨name, _⟩, hentry, rfl⟩ := List.mem_map.1 htype
  have hfound := (mem_types_iff hb).1 hentry
  have hname : type.name = name := name_of_type? hb hfound
  rw [hname]
  exact ⟨type, hfound⟩

theorem possibleTypes_object {name : String} {type : ObjectDef}
    (h : schema.type? name = some (.object type)) : schema.possibleTypes name = [name] := by
  have hname : type.name = name := name_of_type? hb h
  rw [Schema.possibleTypes, h]
  dsimp only
  rw [hname]

/-- What is possible for a type is an object. -/
theorem exists_object_of_mem_possibleTypes {name object : String}
    (h : object ∈ schema.possibleTypes name) :
    ∃ type, schema.type? object = some (.object type) := by
  unfold Schema.possibleTypes at h
  split at h
  · next type htype =>
    obtain rfl := List.mem_singleton.1 h
    have hname : type.name = name := name_of_type? hb htype
    exact ⟨type, by rwa [hname]⟩
  · next union htype => exact exists_object_of_mem_members hb htype h
  · exact exists_object_of_mem_implementers hb h
  · cases h

/-- What belongs to an abstract type is an object. -/
theorem exists_object_of_isPossible {abstract_ object : String}
    (h : schema.isPossible abstract_ object = true) :
    ∃ type, schema.type? object = some (.object type) :=
  exists_object_of_mem_possibleTypes hb (Schema.isPossible_iff.1 h).2

end Blueprint
end TypedQuery
