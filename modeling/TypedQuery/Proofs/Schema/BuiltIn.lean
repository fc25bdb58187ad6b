import TypedQuery.Schema.BuiltIn
/-!
The scalars that every schema starts with.  Each has values of its own, and what it makes of a
result is one of them.  An input is accepted with less tolerance than a result, but whatever is
accepted as an input comes to the same as a result, and a result may be given back as an input
unchanged.  What is not accepted is handed back as it came: `builtIn_coherent`.
-/

namespace TypedQuery
namespace BuiltIn

/-- The value is one of the scalar of the name. -/
def Has (name : String) : Json → Prop
  | .int n => name = "Float" ∨ name = "Int" ∧ -2147483648 ≤ n ∧ n ≤ 2147483647
  | .float _ => name = "Float"
  | .str _ => name = "String" ∨ name = "ID"
  | .bool _ => name = "Boolean"
  | _ => False

theorem has_int_iff {n : Int} : Has "Int" (.int n) ↔ -2147483648 ≤ n ∧ n ≤ 2147483647 := by
  simp [Has]

theorem Has.ne_null {name : String} {value : Json} (h : Has name value) : value ≠ .null := by
  rintro rfl
  exact h

/-- A scalar answers to a value with one of its own, or hands it back. -/
inductive Answers (name : String) (value : Json) : Except ScalarRejection Json → Prop
  | ok {result : Json} (h : Has name result) : Answers name value (.ok result)
  | error {rejection : ScalarRejection} (h : rejection.value = value) :
      Answers name value (.error rejection)

theorem Answers.has {name : String} {value result : Json}
    (h : Answers name value (.ok result)) : Has name result := by
  cases h with
  | ok h => exact h

theorem Answers.value_eq {name : String} {value : Json} {rejection : ScalarRejection}
    (h : Answers name value (.error rejection)) : rejection.value = value := by
  cases h with
  | error h => exact h

end BuiltIn

/-- What the two functions of a scalar have to do with each other and with its values. -/
structure ScalarDef.Coherent (scalar : ScalarDef) : Prop where
  tolerates {value result : Json} :
    scalar.parse value = .ok result → scalar.serialize value = .ok result
  keeps {value : Json} : BuiltIn.Has scalar.name value → scalar.parse value = .ok value
  answersResult (value : Json) : BuiltIn.Answers scalar.name value (scalar.serialize value)
  answersInput (value : Json) : BuiltIn.Answers scalar.name value (scalar.parse value)

namespace ScalarDef.Coherent

theorem has_result {scalar : ScalarDef} (h : scalar.Coherent) {value result : Json}
    (hresult : scalar.serialize value = .ok result) : BuiltIn.Has scalar.name result :=
  (hresult ▸ h.answersResult value).has

theorem has_input {scalar : ScalarDef} (h : scalar.Coherent) {value result : Json}
    (hresult : scalar.parse value = .ok result) : BuiltIn.Has scalar.name result :=
  (hresult ▸ h.answersInput value).has

end ScalarDef.Coherent

namespace BuiltIn

/-! ## Integers of 32 bits -/

theorem fitsInt32_iff {n : Int} : fitsInt32 n = true ↔ -2147483648 ≤ n ∧ n ≤ 2147483647 := by
  rw [fitsInt32, Bool.and_eq_true, decide_eq_true_eq, decide_eq_true_eq]

theorem answers_int32 (value : Json) (n : Int) : Answers "Int" value (int32 value n) := by
  unfold int32
  by_cases hfits : fitsInt32 n = true
  · rw [if_pos hfits]
    exact .ok (has_int_iff.2 (fitsInt32_iff.1 hfits))
  · rw [if_neg hfits]
    exact .error rfl

theorem answers_wholeInt32 (value : Json) (x : Binary64) :
    Answers "Int" value (wholeInt32 value x) := by
  unfold wholeInt32
  -- whatever integer the float comes to, its range is checked
  generalize x.toInt? = whole
  cases whole with
  | some n => exact answers_int32 value n
  | none => exact .error rfl

theorem answers_parseInt (value : Json) : Answers "Int" value (parseInt value) := by
  cases value with
  | int n => exact answers_int32 _ _
  | float x =>
    rw [parseInt]
    exact answers_wholeInt32 _ _
  | _ => exact .error rfl

theorem answers_serializeInt (value : Json) : Answers "Int" value (serializeInt value) := by
  fun_cases serializeInt value with
  | case1 b => cases b <;> exact .ok (has_int_iff.2 ⟨by decide, by decide⟩)
  | case2 text x _ => exact answers_wholeInt32 _ _
  | case3 text _ => exact .error rfl
  | case4 value _ _ => exact answers_parseInt _

theorem serializeInt_of_spelled {text : String} {x : Binary64} {n : Int}
    (hx : numericText? text = some x) (hwhole : x.toInt? = some n) (hfits : fitsInt32 n = true) :
    serializeInt (.str text) = .ok (.int n) := by
  rw [serializeInt, hx]
  dsimp only
  unfold wholeInt32
  rw [hwhole]
  exact if_pos hfits

/-! ## Scalar by scalar -/

theorem coherent_int (description : Option String) :
    ScalarDef.Coherent ⟨"Int", description, serializeInt, parseInt⟩ where
  tolerates {value result} h := by
    -- only truth values and texts are treated otherwise as a result, and no input is one of them
    cases value with
    | bool b => cases h
    | str text => cases h
    | _ => exact h
  keeps {value} h := by
    cases value with
    | int n => exact if_pos (fitsInt32_iff.2 (has_int_iff.1 h))
    | _ => simp [Has] at h
  answersResult := answers_serializeInt
  answersInput := answers_parseInt

theorem coherent_float (description : Option String) :
    ScalarDef.Coherent ⟨"Float", description, serializeFloat, parseFloat⟩ where
  tolerates {value result} h := by
    cases value with
    | bool b => cases h
    | str text => cases h
    | _ => exact h
  keeps {value} h := by
    cases value with
    | int n => rfl
    | float x => rfl
    | _ => simp [Has] at h
  answersResult value := by
    cases value with
    | bool b => exact .ok (.inl rfl)
    | int n => exact .ok (.inl rfl)
    | float x => exact .ok rfl
    | str text =>
      show Answers "Float" (.str text) (serializeFloat (.str text))
      rw [serializeFloat]
      split
      · exact .ok rfl
      · exact .error rfl
    | _ => exact .error rfl
  answersInput value := by
    cases value with
    | int n => exact .ok (.inl rfl)
    | float x => exact .ok rfl
    | _ => exact .error rfl

theorem coherent_string (description : Option String) :
    ScalarDef.Coherent ⟨"String", description, serializeString, parseString⟩ where
  tolerates {value result} h := by
    cases value with
    | str text => exact h
    | _ => cases h
  keeps {value} h := by
    cases value with
    | str text => rfl
    | _ => simp [Has] at h
  answersResult value := by
    cases value with
    | str text => exact .ok (.inl rfl)
    | bool b => exact .ok (.inl rfl)
    | int n => exact .ok (.inl rfl)
    | float x => exact .ok (.inl rfl)
    | _ => exact .error rfl
  answersInput value := by
    cases value with
    | str text => exact .ok (.inl rfl)
    | _ => exact .error rfl

theorem coherent_boolean (description : Option String) :
    ScalarDef.Coherent ⟨"Boolean", description, serializeBoolean, parseBoolean⟩ where
  tolerates {value result} h := by
    cases value with
    | bool b => exact h
    | _ => cases h
  keeps {value} h := by
    cases value with
    | bool b => rfl
    | _ => simp [Has] at h
  answersResult value := by
    cases value with
    | bool b => exact .ok rfl
    | int n => exact .ok rfl
    | float x => exact .ok rfl
    | _ => exact .error rfl
  answersInput value := by
    cases value with
    | bool b => exact .ok rfl
    | _ => exact .error rfl

theorem coherent_id (description : Option String) :
    ScalarDef.Coherent ⟨"ID", description, coerceId, coerceId⟩ :=
  have hanswers (value : Json) : Answers "ID" value (coerceId value) := by
    cases value with
    | str text => exact .ok (.inr rfl)
    | int n => exact .ok (.inr rfl)
    | _ => exact .error rfl
  { tolerates := fun h => h
    keeps := fun {value} h => by
      cases value with
      | str text => rfl
      | _ => simp [Has] at h
    answersResult := hanswers
    answersInput := hanswers }

theorem coherent_of_mem {scalar : ScalarDef} (h : scalar ∈ scalars) : scalar.Coherent := by
  simp only [scalars, List.mem_cons, List.not_mem_nil, or_false] at h
  rcases h with rfl | rfl | rfl | rfl | rfl
  · exact coherent_int _
  · exact coherent_float _
  · exact coherent_string _
  · exact coherent_boolean _
  · exact coherent_id _

end BuiltIn

/-- Whatever one of the scalars that every schema starts with accepts as an input, comes to the same
as a result.  A result is not null, and it is left alone as a result and as an input; what is left
alone as an input are just the values of the scalar, and those of the integers have 32 bits.  A
value that is not accepted is handed back, as a result and as an input. -/
theorem builtIn_coherent {scalar : ScalarDef} (hscalar : scalar ∈ BuiltIn.scalars) (value : Json) :
    (∀ result, scalar.parse value = .ok result → scalar.serialize value = .ok result) ∧
    (∀ result, scalar.serialize value = .ok result →
      result ≠ .null ∧ scalar.serialize result = .ok result ∧ scalar.parse result = .ok result) ∧
    (BuiltIn.Has scalar.name value ↔ scalar.parse value = .ok value) ∧
    (scalar.name = "Int" → ∀ result,
      scalar.serialize value = .ok result ∨ scalar.parse value = .ok result →
        ∃ n : Int, result = .int n ∧ -2147483648 ≤ n ∧ n ≤ 2147483647) ∧
    ∀ rejection,
      scalar.serialize value = .error rejection ∨ scalar.parse value = .error rejection →
        rejection.value = value := by
  have hcoherent := BuiltIn.coherent_of_mem hscalar
  refine ⟨fun result => hcoherent.tolerates, fun result h => ?_,
    ⟨hcoherent.keeps, hcoherent.has_input⟩, fun hname result h => ?_, fun rejection h => ?_⟩
  · have hresult := hcoherent.has_result h
    have hkept := hcoherent.keeps hresult
    exact ⟨hresult.ne_null, hcoherent.tolerates hkept, hkept⟩
  · have hresult := h.elim hcoherent.has_result hcoherent.has_input
    rw [hname] at hresult
    cases result with
    | int n => exact ⟨n, rfl, BuiltIn.has_int_iff.1 hresult⟩
    | _ => simp [BuiltIn.Has] at hresult
  · rcases h with h | h
    · exact (h ▸ hcoherent.answersResult value).value_eq
    · exact (h ▸ hcoherent.answersInput value).value_eq

/-- A text that spells an integer becomes it as a result, and is handed back as an input. -/
theorem builtIn_coherent_text :
    ∃ scalar ∈ BuiltIn.scalars, scalar.name = "Int" ∧
      scalar.serialize (.str " 7.0 ") = .ok (.int 7) ∧ scalar.parse (.int 7) = .ok (.int 7) ∧
      ∃ rejection, scalar.parse (.str " 7.0 ") = .error rejection ∧
        rejection.value = .str " 7.0 " := by
  have hspelled : (BuiltIn.numericText? " 7.0 ").bind Binary64.toInt? = some 7 := by
    decide +kernel
  obtain ⟨x, hx, hwhole⟩ := Option.bind_eq_some_iff.1 hspelled
  have hserialize := BuiltIn.serializeInt_of_spelled hx hwhole (by decide)
  obtain ⟨-, hresults, -, -, hrejected⟩ := builtIn_coherent List.mem_cons_self (.str " 7.0 ")
  refine ⟨_, List.mem_cons_self, rfl, ?_⟩
  dsimp only at hresults hrejected ⊢
  exact ⟨hserialize, (hresults _ hserialize).2.2, _, rfl, hrejected _ (.inr rfl)⟩

end TypedQuery
