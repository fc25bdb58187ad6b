import TypedQuery.Proofs.Coercion.Passing
import TypedQuery.Proofs.Schema.WellFormed
/-!
The arguments that a field comes to, all of them.  What a query gives for an argument is the first
literal of its name, unless that is a variable without a value; `Refuses` and `Takes` say of one
argument what is wrong with that, or what comes of it.  The first argument that refuses decides, and
where none does, the arguments that are given or have a default are there in the order of their
declaration: `coerceArguments_exact`.
-/

namespace TypedQuery
namespace Schema

/-- A query gives the literal for an argument of the name: it is the first one there, and if it is a
variable, that has a value. -/
structure Gives (supplied : List (String × Literal)) (bindings : Json.Fields) (name : String)
    (literal : Literal) : Prop where
  first : ∃ front back, supplied = front ++ (name, literal) :: back ∧
    ∀ entry ∈ front, entry.1 ≠ name
  bound : ∀ variableName, literal = .var variableName →
    ∃ value, bindings.lookup variableName = some value

/-- Something is given for the argument, or else there is a default. -/
def Filled (supplied : List (String × Literal)) (bindings : Json.Fields) (arg : ArgumentDef) :
    Prop :=
  (∃ literal, Gives supplied bindings arg.name literal) ∨ ∃ value, arg.defaultValue = some value

/-- What is wrong with an argument: it is needed and nothing is given, it is null and must not be,
or its type rejects it. -/
inductive Refuses (schema : Schema) (supplied : List (String × Literal)) (bindings : Json.Fields)
    (arg : ArgumentDef) : Rejection → Prop
  | missing (hnone : ∀ literal, ¬ Gives supplied bindings arg.name literal)
      (hmark : arg.type.isNonNull = true) (hdefault : arg.defaultValue = none) :
      Refuses schema supplied bindings arg
        { cause := .missingArgument arg.name arg.type, value := .null }
  | null {literal : Literal} (hgives : Gives supplied bindings arg.name literal)
      (hnull : literal.toJson bindings = .null) (hmark : arg.type.isNonNull = true) :
      Refuses schema supplied bindings arg
        { cause := .nullArgument arg.name arg.type, value := .null }
  | invalid {literal : Literal} {rejection : Rejection}
      (hgives : Gives supplied bindings arg.name literal)
      (hvalue : literal.toJson bindings = .null → arg.type.isNonNull = false)
      (hrejects : schema.coerceInput arg.type (literal.toJson bindings) = .error rejection) :
      Refuses schema supplied bindings arg
        { cause := .invalidArgument arg.name literal, value := rejection.value }

/-- What an argument comes to: its default as it stands, if nothing is given, or what its type makes
of what is given. -/
inductive Takes (schema : Schema) (supplied : List (String × Literal)) (bindings : Json.Fields)
    (arg : ArgumentDef) : Json → Prop
  | default {value : Json} (hnone : ∀ literal, ¬ Gives supplied bindings arg.name literal)
      (hdefault : arg.defaultValue = some value) : Takes schema supplied bindings arg value
  | given {literal : Literal} {value : Json} (hgives : Gives supplied bindings arg.name literal)
      (hvalue : schema.coerceInput arg.type (literal.toJson bindings) = .ok value) :
      Takes schema supplied bindings arg value

variable {schema : Schema} {supplied : List (String × Literal)} {bindings : Json.Fields}

/-! ## One argument -/

theorem suppliedLiteral?_eq_some {name : String} {literal : Literal} :
    suppliedLiteral? name supplied bindings = some literal ↔
      Gives supplied bindings name literal := by
  have hfirst (found : Literal) : supplied.lookup name = some found ↔
      ∃ front back, supplied = front ++ (name, found) :: back ∧
        ∀ entry ∈ front, entry.1 ≠ name := by
    simp only [List.lookup_eq_some_iff, bne_iff_ne, ne_comm]
  -- only of a variable is it asked whether it has a value
  have hbound (found : Literal) (hlookup : supplied.lookup name = some found) :
      suppliedLiteral? name supplied bindings = some literal ↔ found = literal ∧
        ∀ variableName, found = .var variableName →
          ∃ value, bindings.lookup variableName = some value := by
    rw [suppliedLiteral?, hlookup]
    cases found with
    | var variableName =>
      dsimp only
      rw [Option.ite_none_right_eq_some, Option.some.injEq, Keyed.has, Option.isSome_iff_exists,
        and_comm]
      simp
    | _ => simp
  constructor
  · intro h
    cases hlookup : supplied.lookup name with
    | none =>
      rw [suppliedLiteral?, hlookup] at h
      cases h
    | some found =>
      obtain ⟨rfl, hvalue⟩ := (hbound found hlookup).1 h
      exact ⟨(hfirst found).1 hlookup, hvalue⟩
  · intro h
    exact (hbound literal ((hfirst literal).2 h.first)).2 ⟨rfl, h.bound⟩

theorem suppliedLiteral?_eq_none {name : String} :
    suppliedLiteral? name supplied bindings = none ↔
      ∀ literal, ¬ Gives supplied bindings name literal := by
  simp only [← suppliedLiteral?_eq_some]
  exact Option.eq_none_iff_forall_ne_some

instance (arg : ArgumentDef) : Decidable (Filled supplied bindings arg) :=
  decidable_of_iff
    ((suppliedLiteral? arg.name supplied bindings).isSome = true ∨ arg.defaultValue.isSome = true)
    (by simp only [Option.isSome_iff_exists, suppliedLiteral?_eq_some, Filled])

theorem coerceArgument_of_refuses {arg : ArgumentDef} {rejection : Rejection}
    (h : schema.Refuses supplied bindings arg rejection) :
    schema.coerceArgument arg supplied bindings = .error rejection := by
  cases h with
  | missing hnone hmark hdefault =>
    rw [coerceArgument, suppliedLiteral?_eq_none.2 hnone]
    exact if_pos (by rw [ArgumentDef.isRequired, hmark, hdefault]; rfl)
  | null hgives hnull hmark =>
    rw [coerceArgument, suppliedLiteral?_eq_some.2 hgives]
    dsimp only
    rw [hnull, hmark]
    rfl
  | invalid hgives hvalue hrejects =>
    rw [coerceArgument, suppliedLiteral?_eq_some.2 hgives]
    dsimp only
    rw [if_neg, hrejects]
    rw [Bool.and_eq_true, Json.isNull_iff]
    rintro ⟨hnull, hmark⟩
    rw [hvalue hnull] at hmark
    cases hmark

theorem coerceArgument_of_takes {arg : ArgumentDef} {value : Json}
    (h : schema.Takes supplied bindings arg value) :
    schema.coerceArgument arg supplied bindings = .ok (some value) := by
  cases h with
  | default hnone hdefault =>
    rw [coerceArgument_of_not_required (suppliedLiteral?_eq_none.2 hnone), hdefault]
    rw [ArgumentDef.isRequired, hdefault, Option.isNone_some, Bool.and_false]
  | given hgives hvalue =>
    exact (coerceArgument_eq_ok (suppliedLiteral?_eq_some.2 hgives)).2 hvalue

/-- An argument is refused, taken or left out. -/
theorem coerceArgument_cases (schema : Schema) (supplied : List (String × Literal))
    (bindings : Json.Fields) (arg : ArgumentDef) :
    (∃ rejection, schema.Refuses supplied bindings arg rejection) ∨
      (∃ value, schema.Takes supplied bindings arg value) ∨
      schema.coerceArgument arg supplied bindings = .ok none ∧ ¬ Filled supplied bindings arg := by
  cases hliteral : suppliedLiteral? arg.name supplied bindings with
  | none =>
    have hnone := suppliedLiteral?_eq_none.1 hliteral
    cases hdefault : arg.defaultValue with
    | some value => exact .inr (.inl ⟨value, .default hnone hdefault⟩)
    | none =>
      cases hmark : arg.type.isNonNull with
      | true => exact .inl ⟨_, .missing hnone hmark hdefault⟩
      | false =>
        have hrequired : arg.isRequired = false := by
          rw [ArgumentDef.isRequired, hmark, Bool.false_and]
        refine .inr (.inr ⟨?_, ?_⟩)
        · rw [coerceArgument_of_not_required hliteral hrequired, hdefault]
        · rintro (⟨literal, hgives⟩ | ⟨value, hvalue⟩)
          · exact hnone literal hgives
          · rw [hdefault] at hvalue
            cases hvalue
  | some literal =>
    have hgives := suppliedLiteral?_eq_some.1 hliteral
    by_cases hnull : literal.toJson bindings = .null ∧ arg.type.isNonNull = true
    · exact .inl ⟨_, .null hgives hnull.1 hnull.2⟩
    · cases hvalue : schema.coerceInput arg.type (literal.toJson bindings) with
      | error rejection =>
        refine .inl ⟨_, .invalid hgives (fun h => ?_) hvalue⟩
        exact Bool.eq_false_iff.2 fun hmark => hnull ⟨h, hmark⟩
      | ok value => exact .inr (.inl ⟨value, .given hgives hvalue⟩)

theorem coerceArgument_eq_error {arg : ArgumentDef} {rejection : Rejection} :
    schema.coerceArgument arg supplied bindings = .error rejection ↔
      schema.Refuses supplied bindings arg rejection := by
  refine ⟨fun h => ?_, coerceArgument_of_refuses⟩
  rcases schema.coerceArgument_cases supplied bindings arg with
    ⟨other, hrefuses⟩ | ⟨value, htakes⟩ | ⟨hnone, -⟩
  · rw [coerceArgument_of_refuses hrefuses] at h
    rwa [← Except.error.inj h]
  · rw [coerceArgument_of_takes htakes] at h
    cases h
  · rw [hnone] at h
    cases h

theorem Takes.unique {arg : ArgumentDef} {value other : Json}
    (h : schema.Takes supplied bindings arg value)
    (hother : schema.Takes supplied bindings arg other) : other = value := by
  have hsame := coerceArgument_of_takes hother
  rw [coerceArgument_of_takes h] at hsame
  exact (Option.some.inj (Except.ok.inj hsame)).symm

theorem not_refuses_of_coerceArgument {arg : ArgumentDef} {value? : Option Json}
    (h : schema.coerceArgument arg supplied bindings = .ok value?) (rejection : Rejection) :
    ¬ schema.Refuses supplied bindings arg rejection := by
  intro hrefuses
  rw [coerceArgument_of_refuses hrefuses] at h
  cases h

theorem Takes.filled {arg : ArgumentDef} {value : Json}
    (h : schema.Takes supplied bindings arg value) : Filled supplied bindings arg := by
  cases h with
  | default hnone hdefault => exact .inr ⟨value, hdefault⟩
  | given hgives hvalue => exact .inl ⟨_, hgives⟩

/-! ## All arguments -/

theorem coerceArguments_eq_error {field : FieldDef} {rejection : Rejection} :
    schema.coerceArguments field supplied bindings = .error rejection ↔
      ∃ front arg back, field.arguments.values = front ++ arg :: back ∧
        (∀ earlier ∈ front, ∀ other, ¬ schema.Refuses supplied bindings earlier other) ∧
        schema.Refuses supplied bindings arg rejection := by
  have hmap : schema.coerceArguments field supplied bindings = .error rejection ↔
      field.arguments.values.mapM (schema.entry supplied bindings) = .error rejection := by
    rw [coerceArguments_eq]
    cases field.arguments.values.mapM (schema.entry supplied bindings) <;> simp [Except.map]
  have herror (arg : ArgumentDef) (other : Rejection) :
      schema.entry supplied bindings arg = .error other ↔
        schema.Refuses supplied bindings arg other := by
    rw [← coerceArgument_eq_error, entry]
    cases schema.coerceArgument arg supplied bindings <;>
      simp [bind, Except.bind, pure, Except.pure]
  have hok (arg : ArgumentDef) : (∃ result, schema.entry supplied bindings arg = .ok result) ↔
      ∀ other, ¬ schema.Refuses supplied bindings arg other := by
    simp only [← herror]
    cases schema.entry supplied bindings arg <;> simp
  rw [hmap, mapM_eq_error]
  simp only [herror, hok]

/-- The first result is the entry of the first argument. -/
theorem exists_entries_cons {arg : ArgumentDef} {rest : List ArgumentDef} {value? : Option Json}
    (hvalue : schema.coerceArgument arg supplied bindings = .ok value?)
    {arguments : Json.Fields} :
    (∃ results : List (Option (String × Json)),
      (arg :: rest).map (schema.entry supplied bindings) = results.map .ok ∧
        results.filterMap id = arguments) ↔
      ∃ results : List (Option (String × Json)),
        rest.map (schema.entry supplied bindings) = results.map .ok ∧
          (value?.map (fun value => (arg.name, value)) :: results).filterMap id = arguments := by
  rw [List.map_cons, entry_eq_ok.2 ⟨value?, hvalue, rfl⟩]
  constructor
  · rintro ⟨results, hresults, rfl⟩
    obtain ⟨first, others, rfl, hfirst, hothers⟩ := List.map_eq_cons_iff.1 hresults.symm
    rw [← Except.ok.inj hfirst]
    exact ⟨others, hothers.symm, rfl⟩
  · rintro ⟨results, hresults, rfl⟩
    exact ⟨_ :: results, congrArg _ hresults, rfl⟩

/-- The entries are those of the arguments that are filled, one after another. -/
theorem exists_entries_iff {args : List ArgumentDef} {arguments : Json.Fields} :
    (∃ results : List (Option (String × Json)),
      args.map (schema.entry supplied bindings) = results.map .ok ∧
        results.filterMap id = arguments) ↔
      (∀ arg ∈ args, ∀ rejection, ¬ schema.Refuses supplied bindings arg rejection) ∧
        List.Forall₂
          (fun arg entry => entry.1 = arg.name ∧ schema.Takes supplied bindings arg entry.2)
          (args.filter fun arg => Filled supplied bindings arg) arguments := by
  -- argument by argument, each of which is refused, taken or left out
  induction args generalizing arguments with
  | nil =>
    constructor
    · rintro ⟨results, hresults, rfl⟩
      rw [List.map_eq_nil_iff.1 hresults.symm]
      exact ⟨nofun, .nil⟩
    · rintro ⟨-, h⟩
      cases h
      exact ⟨[], rfl, rfl⟩
  | cons arg rest ih =>
    rw [List.forall_mem_cons]
    rcases schema.coerceArgument_cases supplied bindings arg with
      ⟨rejection, hrefuses⟩ | ⟨value, htakes⟩ | ⟨hnone, hempty⟩
    · constructor
      · rintro ⟨results, hresults, -⟩
        obtain ⟨first, others, rfl, hfirst, -⟩ := List.map_eq_cons_iff.1 hresults.symm
        obtain ⟨value?, hvalue, -⟩ := entry_eq_ok.1 hfirst.symm
        exact absurd hrefuses (not_refuses_of_coerceArgument hvalue rejection)
      · rintro ⟨⟨hnot, -⟩, -⟩
        exact absurd hrefuses (hnot rejection)
    · have hvalue := coerceArgument_of_takes htakes
      rw [exists_entries_cons hvalue, List.filter_cons, if_pos (decide_eq_true htakes.filled)]
      constructor
      · rintro ⟨results, hresults, rfl⟩
        obtain ⟨hrest, hentries⟩ := ih.1 ⟨results, hresults, rfl⟩
        exact ⟨⟨not_refuses_of_coerceArgument hvalue, hrest⟩, .cons ⟨rfl, htakes⟩ hentries⟩
      · rintro ⟨⟨-, hrest⟩, hentries⟩
        obtain ⟨⟨name, found⟩, others, ⟨rfl, hfound⟩, hothers, rfl⟩ :=
          List.forall₂_cons_left_iff.1 hentries
        obtain ⟨results, hresults, rfl⟩ := ih.2 ⟨hrest, hothers⟩
        obtain rfl : found = value := htakes.unique hfound
        exact ⟨results, hresults, rfl⟩
    · rw [exists_entries_cons hnone, List.filter_cons_of_neg (by simpa using hempty),
        and_iff_right (not_refuses_of_coerceArgument hnone), ← ih]
      rfl

theorem coerceArguments_eq_ok_iff {field : FieldDef} {arguments : Json.Fields} :
    schema.coerceArguments field supplied bindings = .ok arguments ↔
      (∀ arg ∈ field.arguments.values, ∀ rejection,
        ¬ schema.Refuses supplied bindings arg rejection) ∧
      List.Forall₂
        (fun arg entry => entry.1 = arg.name ∧ schema.Takes supplied bindings arg entry.2)
        (field.arguments.values.filter fun arg => Filled supplied bindings arg) arguments :=
  coerceArguments_eq_ok.trans exists_entries_iff

/-- What is given for other arguments than those of the field is nothing to it. -/
theorem coerceArguments_congr {field : FieldDef} {others : List (String × Literal)}
    (h : ∀ arg ∈ field.arguments.values, supplied.lookup arg.name = others.lookup arg.name) :
    schema.coerceArguments field supplied bindings =
      schema.coerceArguments field others bindings := by
  rw [coerceArguments_eq, coerceArguments_eq]
  refine congrArg _ (mapM_congr fun arg harg => ?_)
  rw [entry, entry, coerceArgument, coerceArgument, suppliedLiteral?, suppliedLiteral?, h arg harg]

end Schema

/-- The field has an argument of the name. -/
def FieldDef.Declares (field : FieldDef) (name : String) : Prop :=
  ∃ arg ∈ field.arguments.values, arg.name = name

instance (field : FieldDef) (name : String) : Decidable (field.Declares name) :=
  inferInstanceAs (Decidable (∃ arg ∈ field.arguments.values, arg.name = name))

/-- The arguments of a field fail just when one of them is refused, and then with what is wrong with
the first such.  Otherwise those that are given or have a default are there, in the order of their
declaration and each under its name: the given ones as their types make them, the others with their
defaults as they stand.  What is given under other names is nothing to this, and neither is the
order in which distinct names are given. -/
theorem coerceArguments_exact (schema : Schema) (field : FieldDef)
    (supplied : List (String × Literal)) (bindings : Json.Fields) :
    ((∃ rejection, schema.coerceArguments field supplied bindings = .error rejection) ↔
      ∃ arg ∈ field.arguments.values, ∃ rejection,
        schema.Refuses supplied bindings arg rejection) ∧
    (∀ rejection, schema.coerceArguments field supplied bindings = .error rejection ↔
      ∃ front arg back, field.arguments.values = front ++ arg :: back ∧
        (∀ earlier ∈ front, ∀ other, ¬ schema.Refuses supplied bindings earlier other) ∧
        schema.Refuses supplied bindings arg rejection) ∧
    (∀ arguments, schema.coerceArguments field supplied bindings = .ok arguments ↔
      (∀ arg ∈ field.arguments.values, ∀ rejection,
        ¬ schema.Refuses supplied bindings arg rejection) ∧
      List.Forall₂
        (fun arg entry => entry.1 = arg.name ∧ schema.Takes supplied bindings arg entry.2)
        (field.arguments.values.filter fun arg => Schema.Filled supplied bindings arg) arguments) ∧
    (∀ others : List (String × Literal),
      (supplied.filter fun entry => field.Declares entry.1) =
        (others.filter fun entry => field.Declares entry.1) →
      schema.coerceArguments field supplied bindings =
        schema.coerceArguments field others bindings) ∧
    ∀ others : List (String × Literal), (supplied.map Prod.fst).Nodup → supplied.Perm others →
      schema.coerceArguments field supplied bindings =
        schema.coerceArguments field others bindings := by
  refine ⟨?_, fun rejection => Schema.coerceArguments_eq_error,
    fun arguments => Schema.coerceArguments_eq_ok_iff, fun others hdeclared => ?_,
    fun others hnames hperm => ?_⟩
  · constructor
    · rintro ⟨rejection, herror⟩
      obtain ⟨front, arg, back, hsplit, -, hrefuses⟩ := Schema.coerceArguments_eq_error.1 herror
      refine ⟨arg, ?_, rejection, hrefuses⟩
      rw [hsplit]
      exact List.mem_append_right _ List.mem_cons_self
    · rintro ⟨arg, harg, rejection, hrefuses⟩
      cases h : schema.coerceArguments field supplied bindings with
      | error other => exact ⟨other, rfl⟩
      | ok arguments =>
        obtain ⟨hnone, -⟩ := Schema.coerceArguments_eq_ok_iff.1 h
        exact absurd hrefuses (hnone arg harg rejection)
  · refine Schema.coerceArguments_congr fun arg harg => ?_
    have hkeep (given : List (String × Literal)) :
        (given.filter fun entry => field.Declares entry.1).lookup arg.name =
          given.lookup arg.name :=
      Keyed.lookup_filter (fun name => field.Declares name) (decide_eq_true ⟨arg, harg, rfl⟩)
    rw [← hkeep supplied, hdeclared, hkeep others]
  · exact Schema.coerceArguments_congr fun arg _ => Keyed.lookup_perm hnames hperm arg.name

namespace Kennel

def limit : ArgumentDef :=
  { name := "limit", type := .nonNull (.named "Int"), defaultValue := some (.int 10) }

def tags : ArgumentDef :=
  { name := "tags", type := .list (.named "String"), defaultValue := none }

/-- A field that looks for pets. -/
def search : FieldDef :=
  { name := "search"
    description := none
    type := .list (.named "Pet")
    arguments := [("limit", limit), ("tags", tags)]
    resolver := none }

end Kennel

/-- The limit must not be null, but it may be left out, wherever the tags are given. -/
theorem coerceArguments_kennel :
    Kennel.schema.coerceArguments Kennel.search [("limit", .var "n"), ("tags", .int 1)]
        [("n", .null)] =
      .error { cause := .nullArgument "limit" (.nonNull (.named "Int")), value := .null } ∧
    Kennel.schema.coerceArguments Kennel.search [("page", .int 2), ("tags", .str "small")] [] =
      .ok [("limit", .int 10), ("tags", .arr [.str "small"])] := by
  obtain ⟨-, herror, -⟩ := coerceArguments_exact Kennel.schema Kennel.search
    [("limit", .var "n"), ("tags", .int 1)] [("n", .null)]
  obtain ⟨-, -, -, -, hperm⟩ := coerceArguments_exact Kennel.schema Kennel.search
    [("tags", .str "small"), ("page", .int 2)] []
  refine ⟨(herror _).2 ⟨[], Kennel.limit, [Kennel.tags], rfl, nofun, ?_⟩, ?_⟩
  · refine .null ⟨⟨[], [("tags", .int 1)], rfl, nofun⟩, ?_⟩ rfl rfl
    rintro variableName ⟨⟩
    exact ⟨.null, rfl⟩
  · rw [← hperm _ (by decide) (.swap _ _ _)]
    rfl

end TypedQuery
