import TypedQuery.Proofs.Execution.Run
/-!
Executions with other fragments.  Only collecting looks at fragments.  A run looks at a fragment by
its name and at how many there are, so one that finds the same fragments under all names ends alike:
`Run.ending_withFragments`.
-/

namespace TypedQuery

namespace Selector

def withFragments (fragments : List Fragment) (s : Selector) : Selector :=
  { s with fragments := fragments }

/-- The fragments of the names are the same, wherever they stand, and there are as many. -/
structure SameFragments (s : Selector) (fragments : List Fragment) : Prop where
  named : ∀ name, (s.withFragments fragments).fragment? name = s.fragment? name
  length : fragments.length = s.fragments.length

variable {s : Selector} {fragments : List Fragment}

mutual

theorem collectSelection_withFragments (h : s.SameFragments fragments)
    (enter : Fragment → Collected → Collected) (object : String) : ∀ selection : Selection,
    (s.withFragments fragments).collectSelection enter object selection =
      s.collectSelection enter object selection
  | .field head selections => by
    funext state
    rw [collectSelection, collectSelection]
    rfl
  | .spread location name directives => by
    funext state
    rw [collectSelection, collectSelection, h.named]
    rfl
  | .inline location condition directives selections => by
    funext state
    simp only [collectSelection, collectWith_withFragments h enter object selections]
    rfl

theorem collectWith_withFragments (h : s.SameFragments fragments)
    (enter : Fragment → Collected → Collected) (object : String) :
    ∀ selections : List Selection,
    (s.withFragments fragments).collectWith enter object selections =
      s.collectWith enter object selections
  | [] => by
    funext state
    rw [collectWith, collectWith]
  | first :: rest => by
    funext state
    rw [collectWith, collectWith, collectSelection_withFragments h enter object first,
      collectWith_withFragments h enter object rest]

end

theorem collectDeep_withFragments (h : s.SameFragments fragments) (object : String) (depth : Nat) :
    (s.withFragments fragments).collectDeep object depth = s.collectDeep object depth := by
  induction depth with
  | zero =>
    funext selections
    exact collectWith_withFragments h _ object selections
  | succ depth ih =>
    funext selections
    rw [collectDeep, collectDeep, ih]
    exact collectWith_withFragments h _ object selections

theorem collect_withFragments (h : s.SameFragments fragments) :
    (s.withFragments fragments).collect = s.collect := by
  funext object sets
  have hlength : (s.withFragments fragments).fragments.length = s.fragments.length := h.length
  unfold collect
  rw [hlength, collectDeep_withFragments h]

end Selector

namespace Execution

def withFragments (fragments : List Fragment) (exec : Execution) : Execution :=
  { exec with selector := exec.selector.withFragments fragments }

variable {exec : Execution} {fragments : List Fragment}

theorem completeValue_withFragments (object : String → Path → Json → Completion)
    (info : FieldInfo) (locations : List Location) (type : TypeExpr) :
    (exec.withFragments fragments).completeValue object info locations type =
      exec.completeValue object info locations type := by
  induction type with
  | named name =>
    funext path value
    rw [completeValue, completeValue]
    rfl
  | list item ih =>
    funext path value
    cases value with
    | arr items =>
      rw [completeValue, completeValue, ih]
      rfl
    | _ => rfl
  | nonNull inner ih =>
    funext path value
    rw [completeValue, completeValue, ih]

theorem completeField_withFragments
    (object : String → List FieldNode → Path → Json → Completion) :
    (exec.withFragments fragments).completeField object = exec.completeField object := by
  funext parentType parent path field group
  unfold completeField
  simp only [completeValue_withFragments]
  rfl

theorem completeFields_withFragments
    (object : String → List FieldNode → Path → Json → Completion) :
    (exec.withFragments fragments).completeFields object = exec.completeFields object := by
  funext limit parentType parent path groups
  unfold completeFields
  rw [completeField_withFragments]
  rfl

theorem groups_withFragments (h : exec.selector.SameFragments fragments) :
    (exec.withFragments fragments).groups = exec.groups := by
  funext type sets
  unfold groups
  rw [← Selector.collect_withFragments h]
  rfl

/-- Objects nest alike, whatever the order of the fragments. -/
theorem completeObject_withFragments (h : exec.selector.SameFragments fragments) (depth : Nat) :
    (exec.withFragments fragments).completeObject depth = exec.completeObject depth := by
  induction depth with
  | zero => rfl
  | succ depth ih =>
    funext type nodes path value
    rw [completeObject, completeObject, ih, completeFields_withFragments, groups_withFragments h]
    rfl

end Execution

namespace Run

def withFragments (fragments : List Fragment) (run : Run) : Run :=
  { run with selector := run.selector.withFragments fragments }

variable {run : Run} {fragments : List Fragment} (h : run.selector.SameFragments fragments)

include h

theorem complete_withFragments (log : CallLog) :
    (run.withFragments fragments).complete log = run.complete log := by
  show ((run.execution log).withFragments fragments).completeFields
      (((run.execution log).withFragments fragments).completeObject run.depth) _ _ _ _
      (((run.execution log).withFragments fragments).groups _ _) = _
  rw [Execution.completeFields_withFragments, Execution.completeObject_withFragments h,
    Execution.groups_withFragments h]
  rfl

theorem settle_withFragments (rounds : Nat) (seen : CallLog) :
    (run.withFragments fragments).settle rounds seen = run.settle rounds seen := by
  induction rounds generalizing seen with
  | zero => rfl
  | succ rounds ih =>
    rw [settle, settle, log, log, complete_withFragments h, ih]

theorem ending_withFragments : (run.withFragments fragments).ending = run.ending := by
  have hlog : (run.withFragments fragments).callLog = run.callLog := by
    unfold callLog
    dsimp only
    rw [settle_withFragments h, log, log, complete_withFragments h]
  unfold ending
  dsimp only
  rw [hlog, complete_withFragments h]

end Run

end TypedQuery
