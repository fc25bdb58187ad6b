import TypedQuery.Proofs.Execution.Viewing
/-!
Calls at other times.  Resolvers that come to the same, and are cut off in the same places, leave
outlines that differ in nothing but the calls themselves: `Run.untimed_outline`.
-/

namespace TypedQuery

/-- Two attempts come to the same, whatever the log, and both are in time or none of them is. -/
def Attempt.Alike (deadline : Option Nat) (a b : Attempt) : Prop :=
  ∀ n m, a.outcome n = b.outcome m ∧
    (a.duration (a.outcome n)).outlasts deadline = (b.duration (b.outcome m)).outlasts deadline

/-- Other resolvers that differ from those of a schema in their timing alone. -/
def Schema.Retimed (schema : Schema) (deadline : Option Nat)
    (resolvers : String → String → Option Resolver) : Prop :=
  ∀ type name field call, schema.field? type name = some field →
    ((field.resolve) call).Alike deadline
      (((resolvers type name).getD Resolver.property) call)

/-- What a call came to, without its time. -/
def MadeCall.untimed (deadline : Option Nat) (made : MadeCall) : MadeCall :=
  { made with
    attempt :=
      { logged := false
        wait := if made.duration.outlasts deadline then .never else .ready
        eager := false
        outcome := fun _ => made.outcome } }

theorem MadeCall.untimed_congr {deadline : Option Nat} {a b : MadeCall} (hcall : a.call = b.call)
    (hout : a.outcome = b.outcome)
    (hlate : a.duration.outlasts deadline = b.duration.outlasts deadline) :
    a.untimed deadline = b.untimed deadline := by
  unfold untimed
  rw [hcall, hout, hlate]

def Place.untimed (deadline : Option Nat) (place : Place) : Place :=
  { place with made := place.made.map (MadeCall.untimed deadline) }

namespace Outline

mutual

/-- The outline without the times of its calls. -/
def untimed (deadline : Option Nat) : Outline → Outline
  | set kind members => set kind (untimedMembers deadline members)
  | leaf data => leaf data
  | failed failure => failed failure
  | escaped cause => escaped cause

def untimedMembers (deadline : Option Nat) : List (Place × Outline) → List (Place × Outline)
  | [] => []
  | (place, o) :: rest =>
    (place.untimed deadline, o.untimed deadline) :: untimedMembers deadline rest

end

end Outline

/-- The view without the times of calls. -/
def View.untimed (deadline : Option Nat) : View where
  keep := Place.untimed deadline
  blank _ := false
  relocate := id
  segment_keep _ := rfl
  type_keep _ := rfl
  locations_keep _ := rfl

theorem View.sees_untimed (deadline : Option Nat) (base : Path) :
    (View.untimed deadline).Sees base := fun _ _ => rfl

namespace Outline

variable (deadline : Option Nat)

mutual

theorem untimed_eq_read : ∀ (base : Path) (o : Outline),
    o.untimed deadline = (View.untimed deadline).read base o
  | _, leaf _ => rfl
  | _, failed _ => rfl
  | _, escaped _ => rfl
  | base, set kind members => congrArg (set kind) (untimedMembers_eq_read base members)

theorem untimedMembers_eq_read : ∀ (base : Path) (members : List (Place × Outline)),
    untimedMembers deadline members = (View.untimed deadline).readMembers base members
  | _, [] => rfl
  | base, (place, o) :: rest => by
    rw [untimedMembers, untimed_eq_read (base ++ [place.segment]) o,
      untimedMembers_eq_read base rest]
    rfl

end

theorem escapes_untimed (o : Outline) : (o.untimed deadline).escapes = o.escapes := by
  rw [untimed_eq_read deadline Path.root, View.escapes_read (View.sees_untimed deadline _)]

theorem response_untimed (o : Outline) : (o.untimed deadline).response = o.response := by
  rw [untimed_eq_read deadline Path.root, response, response,
    View.data_read (View.sees_untimed deadline _), View.marks_read (View.sees_untimed deadline _),
    List.map_map]
  rfl

theorem hangs_untimed_place (place : Place) :
    (place.untimed deadline).hangs deadline = place.hangs deadline := by
  unfold Place.hangs Place.untimed
  cases place.made with
  | none => rfl
  | some made =>
    show (Execution.pause deadline (made.untimed deadline).duration == _) =
      (Execution.pause deadline made.duration == _)
    have hd : (made.untimed deadline).duration =
        if made.duration.outlasts deadline then .never else .ready := rfl
    rw [hd]
    by_cases h : made.duration.outlasts deadline = true
    · rw [if_pos h, Execution.pause_of_outlasts h, Execution.pause_of_outlasts]
      cases deadline <;> rfl
    · rw [if_neg h]
      rcases Execution.pause_of_not_outlasts (Bool.eq_false_iff.2 h) with hp | ⟨ms, hp⟩
      · rw [hp]
        rfl
      · rw [hp]
        rfl

mutual

theorem hangs_untimed : ∀ o : Outline, (o.untimed deadline).hangs deadline = o.hangs deadline
  | leaf _ => rfl
  | failed _ => rfl
  | escaped _ => rfl
  | set _ members => anyHangs_untimed members

theorem anyHangs_untimed : ∀ members : List (Place × Outline),
    anyHangs deadline (untimedMembers deadline members) = anyHangs deadline members
  | [] => rfl
  | (place, o) :: rest => by
    rw [untimedMembers, anyHangs, hangs_untimed_place, hangs_untimed o, anyHangs_untimed rest,
      anyHangs]

end

end Outline

namespace Execution

variable {exec : Execution} {resolvers : String → String → Option Resolver}

/-- Without their times, retimed calls look alike. -/
theorem alike_untimed (h : exec.schema.Retimed exec.config.fieldTimeout resolvers) :
    exec.Alike (View.untimed exec.config.fieldTimeout) resolvers exec.log := by
  have hsame {type name : String} {field : FieldDef} (call : Call)
      (hfield : exec.schema.field? type name = some field) :
      let made := exec.made field.resolve call
      let made' := exec.made ((resolvers type name).getD Resolver.property) call
      made.outcome = made'.outcome ∧
        made.duration.outlasts exec.config.fieldTimeout =
          made'.duration.outlasts exec.config.fieldTimeout :=
    h type name field call hfield _ _
  have hresult {type name : String} {field : FieldDef} (call : Call)
      (hfield : exec.schema.field? type name = some field) :
      exec.result? ((resolvers type name).getD Resolver.property) call =
        exec.result? field.resolve call := by
    obtain ⟨hout, hlate⟩ := hsame call hfield
    rw [result?, result?, hout, hlate]
  constructor
  · intro type name field call place hfield
    obtain ⟨hout, hlate⟩ := hsame call hfield
    show Place.untimed _ (exec.madePlace place ((resolvers type name).getD Resolver.property) call)
      = Place.untimed _ (exec.madePlace place field.resolve call)
    have hmade := MadeCall.untimed_congr
      (show (exec.made ((resolvers type name).getD Resolver.property) call).call =
        (exec.made field.resolve call).call from rfl) hout.symm hlate.symm
    unfold madePlace Place.untimed
    rw [hresult call hfield, Option.map_some, Option.map_some, hmade]
  · intro type name field call hfield _
    exact hresult call hfield

end Execution

/-- Retimed resolvers leave the same outline but for the times of its calls. -/
theorem Run.untimed_outline {run : Run} {resolvers : String → String → Option Resolver}
    (hr : run.selector.schema.Retimed run.config.fieldTimeout resolvers) (depth : Nat)
    (log : CallLog) :
    ((run.withResolvers resolvers).outline depth log).untimed run.config.fieldTimeout =
      (run.outline depth log).untimed run.config.fieldTimeout := by
  have halike := @Execution.alike_untimed (run.execution log) resolvers hr
  rw [Outline.untimed_eq_read _ Path.root, Outline.untimed_eq_read _ Path.root]
  exact Run.read_outline halike depth

end TypedQuery
