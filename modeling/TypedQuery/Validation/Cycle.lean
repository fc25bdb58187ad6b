import TypedQuery.Validation.Reach
/-!
Cycles among fragments.  A depth-first search enters each fragment once and reports every spread
that leads back to a fragment it is still inside of.
-/

namespace TypedQuery
namespace Survey

/-- The fault of a closed walk: its last spread leads back to where the first one starts. -/
def cycleDiagnostic (target : String) (walk : List Spread) : Diagnostic :=
  { fault := .cycle target (walk.dropLast.map Spread.fragment)
    locations := walk.map Spread.location }

/-- The state of the search: the fragments that were entered, and what was found. -/
structure CycleSearch where
  entered : List String
  diagnostics : List Diagnostic

/-- Enters a fragment.  `inside` are the fragments around it from the outermost on, and `walk` holds
the spread by which each but the first of them, and then the fragment, was reached. -/
def searchCycles (survey : Survey) : Nat → List String → List Spread → String → CycleSearch →
    CycleSearch
  | 0, _, _, _, state => state
  | depth + 1, inside, walk, name, state =>
    if state.entered.contains name then state
    else
      let inside := inside ++ [name]
      (survey.fragmentFindings name).spreads.foldl
        (fun state spread =>
          match inside.idxOf? spread.fragment with
          | some start =>
            let closed := walk.drop start ++ [spread]
            { state with
              diagnostics := state.diagnostics ++ [cycleDiagnostic spread.fragment closed] }
          | none =>
            if survey.isDefined spread.fragment then
              survey.searchCycles depth inside (walk ++ [spread]) spread.fragment state
            else state)
        { state with entered := name :: state.entered }

/-- Starts from each fragment in turn.  The search never goes deeper than there are fragments. -/
def cycleDiagnostics (survey : Survey) : List Diagnostic :=
  let fragments := survey.scope.fragments
  let search := fun state (frag : Fragment) =>
    survey.searchCycles fragments.length [] [] frag.name state
  (fragments.foldl search { entered := [], diagnostics := [] }).diagnostics

end Survey
end TypedQuery
