import TypedQuery.Proofs.Execution.Members
import TypedQuery.Proofs.Execution.Records
import TypedQuery.Proofs.Execution.Serial
import TypedQuery.Proofs.Execution.Termination
/-!
How many members of a set run at a time.  Every selection set and every list has a window of as many
members as its limit says: a member starts when those are over, with all below them, that stand at
least that far in front of it.  No window is held for ever while calls come to their ends or are cut
off, and a window of one gives the depth-first order, of which the call log has the calls:
`window_kept`.
-/

namespace TypedQuery
namespace Run

variable (run : Run)

/-- The run completes a set at the path, an object or a list, with the members and the limit on what
runs of them at a time. -/
inductive HasSet : Path → Nat → List (Place × Outline) → Prop
  | root {kind : SetKind} {members : List (Place × Outline)}
      (ho : run.outline run.depth run.callLog = .set kind members) : HasSet [] run.limit members
  | below {path : Path} {place : Place} {kind : SetKind} {members : List (Place × Outline)}
      (hat : (run.outline run.depth run.callLog).At path place (.set kind members)) :
      HasSet path run.config.window members

variable {run}

theorem HasSet.limit_pos {base : Path} {limit : Nat} {members : List (Place × Outline)}
    (h : run.HasSet base limit members) : 0 < limit := by
  cases h with
  | root => exact run.limit_pos
  | below => exact Nat.le_max_left _ _

theorem HasSet.at {base : Path} {limit : Nat} {members : List (Place × Outline)}
    (h : run.HasSet base limit members) {member : Place × Outline} (hm : member ∈ members) :
    (run.outline run.depth run.callLog).At (base ++ [member.1.segment]) member.1 member.2 := by
  cases h with
  | root ho =>
    rw [ho]
    exact .member hm
  | below hat => exact Outline.at_trans hat (.member hm)

/-- The window is as wide as the setting says, but one member wide at the root of a mutation. -/
theorem HasSet.limit_eq {base : Path} {limit : Nat} {members : List (Place × Outline)}
    (h : run.HasSet base limit members) :
    limit = if base = [] ∧ run.serial = true then 1 else max 1 run.config.maxConcurrentFields := by
  cases h with
  | root =>
    rw [Run.limit]
    simp only [true_and]
    rfl
  | below hat => exact (if_neg fun hroot => hat.ne_nil hroot.1).symm

/-- Of the events of a set, the run shows what the set shows from some time on. -/
theorem HasSet.share {base : Path} {limit : Nat} {members : List (Place × Outline)}
    (h : run.HasSet base limit members) :
    ∃ start, run.events.filter (Event.isBelow base) <+:
      ((Trace.members limit (Outline.memberTraces run.config members)).course start).events.filter
        (Event.isBelow base) := by
  have haddressed := (run.grown_outline run.depth run.callLog).addressed
  have horderly := run.orderly_outline run.depth run.callLog
  obtain ⟨outer, ho, hevents⟩ := run.events_complete run.callLog
  rw [events, hevents]
  rw [ho] at haddressed horderly
  cases h with
  | root hroot =>
    obtain ⟨rfl, rfl⟩ := Outline.set.inj (ho.symm.trans hroot)
    exact ⟨0, List.prefix_refl _⟩
  | below hat =>
    rw [ho] at hat
    exact Outline.share_at horderly haddressed hat run.limit 0

/-- What the run completes at the path is a set with calls at the paths of its members. -/
theorem HasSet.exists_set {base : Path} {limit : Nat} {members : List (Place × Outline)}
    (h : run.HasSet base limit members) :
    ∃ kind, (Outline.set kind members).Orderly ∧ (Outline.set kind members).Addressed base := by
  have haddressed := (run.grown_outline run.depth run.callLog).addressed
  have horderly := run.orderly_outline run.depth run.callLog
  cases h with
  | root ho => exact ⟨_, ho ▸ horderly, ho ▸ haddressed⟩
  | below hat => exact ⟨_, horderly.at hat, haddressed.at hat⟩

/-- What is seen of a run keeps the window of every set. -/
theorem HasSet.keepsWindow {base : Path} {limit : Nat} {members : List (Place × Outline)}
    (h : run.HasSet base limit members) :
    Outline.KeepsWindow run.config base limit members run.events := by
  have haddressed := (run.grown_outline run.depth run.callLog).addressed
  have horderly := run.orderly_outline run.depth run.callLog
  obtain ⟨kind, hown, hcalls⟩ := h.exists_set
  obtain ⟨start, hshare⟩ := h.share
  exact Outline.keepsWindow_of_throughout hcalls hown h.limit_pos
    (Outline.throughout_of_share hown hcalls h.limit_pos hshare)
    (run.pairwise_events Event.orders_distinct run.callLog)
    fun member hm e he => haddressed.of_within horderly (h.at hm) (run.mem_inOrder he)

/-- When no call hangs, and nothing ends the execution from within, all members come to their ends.
-/
theorem HasSet.finished (hesc : (run.outline run.depth run.callLog).escapes = false)
    (hh : (run.outline run.depth run.callLog).hangs run.config.fieldTimeout = false) {base : Path}
    {limit : Nat} {members : List (Place × Outline)} (h : run.HasSet base limit members) :
    ∀ i < members.length, Outline.Finished run.config members i run.events := by
  intro i hi
  have hget := List.getElem?_eq_getElem hi
  obtain ⟨hends, hsub⟩ := Outline.finished_of_at hesc hh (h.at (List.mem_of_getElem? hget))
  exact ⟨_, hget, hends, List.Subset.trans hsub (run.depthFirst_subset_events hesc hh)⟩

/-- And then the set comes to where none of its members runs, and all have started, whenever it is
started. -/
theorem HasSet.ends (hesc : (run.outline run.depth run.callLog).escapes = false)
    (hh : (run.outline run.depth run.callLog).hangs run.config.fieldTimeout = false) {base : Path}
    {limit : Nat} {members : List (Place × Outline)} (h : run.HasSet base limit members)
    (now : Nat) :
    ∃ past crew,
      Crew.Steps limit (.start limit now (Outline.tasks run.config members)) past crew ∧
        crew.running = [] ∧ crew.next = members.length := by
  have hfinishes : Trace.allFinish (Outline.memberTraces run.config members) = true := by
    rw [Outline.memberTraces_eq_map, Trace.allFinish_eq_all, List.all_map, List.all_eq_true]
    exact fun member hm => (Outline.finished_of_at hesc hh (h.at hm)).1
  have hlimited : (Trace.members limit (Outline.memberTraces run.config members)).limited (0 < ·) :=
    ⟨h.limit_pos, Outline.allLimited_memberTraces (Nat.le_max_left _ _) members⟩
  have hends := (Trace.course_ends hlimited now).trans hfinishes
  rw [Trace.course] at hends
  obtain ⟨last, hsteps, hover⟩ := Crew.course_steps limit now (Outline.tasks run.config members)
  have hnone := hover hends
  exact ⟨_, last, hsteps, hnone, (Outline.inWindow_of_steps h.limit_pos hsteps).busy hnone⟩

/-- The call log is left by calls that see some log, or the call log itself if none looks at it. -/
theorem exists_seen (run : Run) :
    ∃ seen, run.callLog = run.log seen ∧ (run.selector.schema.IgnoresLog → seen = run.callLog) := by
  by_cases h : run.selector.schema.IgnoresLog
  · exact ⟨run.callLog, (callLog_eq h).trans (log_eq h run.callLog []), fun _ => rfl⟩
  · obtain ⟨seen, hseen⟩ := run.exists_callLog
    exact ⟨seen, hseen, fun hlog => absurd hlog h⟩

end Run

/-- A validated request keeps a window over each set that it completes, an object or a list.  It is as
wide as the setting says, for at least one member, and for one at a time at the root of a mutation.

Before a member starts, those outside its window have finished with all below them, and none of them
runs any more, not even to wait for a deadline; so it is however the members of the set take turns,
and so it is at every point of what is seen of the run.  When every call comes to an end or is cut
off, all members of all sets start and finish.  With windows of one, all is done in the order of the
selections, depth first, however long calls take, and so it is written to the call log.  That log is
of a run with calls that see some log, which is the call log itself if none looks at it. -/
theorem window_kept {schema : Schema} {request : Request}
    (hvalid : schema.validate request.document request.operation request.inputs = [])
    (config : Config) (context : Context) :
    ∃ op run, request.document.select request.operation = .ok op ∧
      schema.prepare config context request = .ok run ∧
      schema.execute config context request = run.ending ∧
      (∀ base limit members, run.HasSet base limit members →
        limit = (if base = [] ∧ op.kind = .mutation then 1 else max 1 config.maxConcurrentFields) ∧
        (∀ now past crew,
          Crew.Steps limit (.start limit now (Outline.tasks config members)) past crew →
            Outline.InWindow config limit members past crew) ∧
        Outline.KeepsWindow config base limit members run.events) ∧
      (schema.CalmPlacers → config.catchPanics = true ∨ schema.CalmResolvers → run.Punctual →
        (∃ r, schema.execute config context request = .response r run.callLog) ∧
        (∀ base limit members, run.HasSet base limit members →
          (∀ i < members.length, Outline.Finished config members i run.events) ∧
          ∀ now, ∃ past crew,
            Crew.Steps limit (.start limit now (Outline.tasks config members)) past crew ∧
              crew.running = [] ∧ crew.next = members.length) ∧
        (config.maxConcurrentFields ≤ 1 →
          run.events = run.depthFirst run.callLog ∧
          (schema.IgnoresLog → run.callLog =
            (run.outline run.depth run.callLog).records config.fieldTimeout))) ∧
      (config.maxConcurrentFields ≤ 1 →
        (∀ log, run.InOrder log ∧ run.Logged log) ∧
        ∃ seen, run.callLog = run.log seen ∧ (schema.IgnoresLog → seen = run.callLog)) := by
  obtain ⟨run, hrun⟩ := Schema.exists_prepare hvalid config context
  have hexecute := Schema.execute_of_no_errors hvalid hrun
  have hacyclic := Document.acyclicSpreads (Schema.validate_eq_nil hvalid).1
  obtain ⟨op, rootType, bindings, hop, -, -, hmade⟩ := Schema.prepare_eq_ok hrun
  have hac : AcyclicSpreads run.selector.fragments := hmade ▸ hacyclic
  have hw : weight run.selector.fragments run.selections ≤ run.depth := by
    rw [hmade]
    exact Nat.le_of_lt (Document.weight_operation_lt (Document.mem_of_select hop))
  have hschema : run.selector.schema = schema := hmade ▸ rfl
  have hserial : run.serial = (op.kind == .mutation) := hmade ▸ rfl
  obtain rfl : run.config = config := hmade ▸ rfl
  have horder (hone : run.config.maxConcurrentFields ≤ 1) (log : CallLog) :
      run.InOrder log ∧ run.Logged log :=
    ⟨Run.inOrder_of_window (Nat.max_eq_left hone) log,
      Run.logged_of_window (Nat.max_eq_left hone) log⟩
  refine ⟨op, run, hop, hrun, hexecute, fun base limit members hset =>
    ⟨?_, fun _ _ _ hsteps => Outline.inWindow_of_steps hset.limit_pos hsteps, hset.keepsWindow⟩,
    fun hcalm hcatch hpunctual => ?_, fun hone => ⟨horder hone, hschema ▸ run.exists_seen⟩⟩
  · rw [hset.limit_eq, hserial]
    simp only [beq_iff_eq]
  · rw [← hschema] at hcalm hcatch
    have hesc := Run.escapes_outline hac hcalm hcatch hw run.callLog
    have hh := hpunctual.hangs_outline
    refine ⟨?_, fun _ _ _ hset => ⟨hset.finished hesc hh, hset.ends hesc hh⟩, fun hone => ?_⟩
    · rw [hexecute]
      exact Run.response_of_punctual hac hw hcalm hcatch hpunctual
    · obtain ⟨⟨-, hevents⟩, -, hlog⟩ := horder hone run.callLog
      refine ⟨hevents hesc hh, fun hignores => ?_⟩
      obtain ⟨seen, hseen, hsame⟩ := run.exists_seen
      rw [hsame (hschema ▸ hignores)] at hseen
      exact hseen.trans (hlog hesc hh)

namespace Sample

/-- Properties that take their time, and for ever where `one` is asked for.  Calls are logged. -/
def timed (_ _ : String) : Option Resolver :=
  some fun call =>
    { Resolver.property call with
      logged := true
      wait := if call.info.path = [.key "one"] then .never else .sleeps 2 }

theorem ignoresLog_timed : (schema.withResolvers timed).IgnoresLog := by
  intro type name field resolver hfield hresolver call n m
  rw [Schema.field?_withResolvers, Option.map_eq_some_iff] at hfield
  obtain ⟨own, -, rfl⟩ := hfield
  obtain rfl := Option.some.inj hresolver
  rfl

def selfAs (key : String) : Selection :=
  .field
    { location := place, aliasName := some key, name := "self", arguments := [], directives := [] }
    [select "number" []]

/-- A query for the object below the root, three times. -/
def thrice : Request :=
  { document :=
      { definitions :=
          [.operation
              { location := place
                kind := .query
                name := none
                variableDefs := []
                directives := []
                selections := [selfAs "one", selfAs "two", selfAs "three"] }] }
    operation := none
    inputs := []
    root := .obj [("self", .obj [("number", .int 1)])] }

/-- At most so many members of a set run at a time, and no call takes more than five milliseconds. -/
def timedConfig (limit : Nat) : Config :=
  { maxConcurrentFields := limit, fieldTimeout := some 5, catchPanics := true }

end Sample

/-- In a window of two, the first member has been cut off when the third one starts.  Under a setting
of zero, one member runs at a time, and the call log has the calls depth first. -/
theorem window_kept_sample :
    (∃ run : Run, ∃ r members,
      (Sample.schema.withResolvers Sample.timed).prepare (Sample.timedConfig 2) .empty
        Sample.thrice = .ok run ∧
      (Sample.schema.withResolvers Sample.timed).execute (Sample.timedConfig 2) .empty
        Sample.thrice = .response r run.callLog ∧
      run.HasSet [] 2 members ∧ members.length = 3 ∧
      (∃ made member, members[0]? = some member ∧ member.1.made = some made ∧
        made.duration.outlasts (some 5) = true) ∧
      (∀ now past crew,
        Crew.Steps 2 (.start 2 now (Outline.tasks (Sample.timedConfig 2) members)) past crew →
          2 < crew.next → 0 ∉ crew.running.map Prod.fst) ∧
      (∀ now, ∃ past crew,
        Crew.Steps 2 (.start 2 now (Outline.tasks (Sample.timedConfig 2) members)) past crew ∧
          crew.running = [] ∧ crew.next = 3) ∧
      Outline.KeepsWindow (Sample.timedConfig 2) [] 2 members run.events ∧
      ∀ i < 3, Outline.Finished (Sample.timedConfig 2) members i run.events) ∧
    ∃ r, (Sample.schema.withResolvers Sample.timed).execute (Sample.timedConfig 0) .empty
        Sample.thrice =
      .response r
        [⟨"Query.self", [.key "one"], false⟩,
          ⟨"Query.self", [.key "two"], false⟩,
          ⟨"Query.self", [.key "two"], true⟩,
          ⟨"Query.number", [.key "two", .key "number"], false⟩,
          ⟨"Query.number", [.key "two", .key "number"], true⟩,
          ⟨"Query.self", [.key "three"], false⟩,
          ⟨"Query.self", [.key "three"], true⟩,
          ⟨"Query.number", [.key "three", .key "number"], false⟩,
          ⟨"Query.number", [.key "three", .key "number"], true⟩] := by
  have hcalm := Sample.calmPlacers_withResolvers Sample.timed
  constructor
  · obtain ⟨op, run, hop, hrun, -, hwindows, hends, -⟩ :=
      @window_kept (Sample.schema.withResolvers Sample.timed) Sample.thrice rfl
        (Sample.timedConfig 2) .empty
    obtain rfl := Except.ok.inj hop
    obtain rfl := Except.ok.inj hrun
    obtain ⟨⟨r, hr⟩, hfinished, -⟩ := hends hcalm (.inl rfl) fun _ _ _ _ _ _ => .inl rfl
    obtain ⟨-, hinWindow, hkeeps⟩ := hwindows [] 2 _ (.root rfl)
    obtain ⟨hall, hends⟩ := hfinished [] 2 _ (.root rfl)
    refine ⟨_, r, _, rfl, hr, .root rfl, rfl, ⟨_, _, rfl, rfl, rfl⟩, ?_, hends, hkeeps, hall⟩
    intro now past crew hsteps hthird
    exact ((hinWindow now past crew hsteps).behind 2 hthird 0 (Nat.le_refl 2)).2
  · obtain ⟨op, run, -, hrun, -, -, hends, -⟩ :=
      @window_kept (Sample.schema.withResolvers Sample.timed) Sample.thrice rfl
        (Sample.timedConfig 0) .empty
    obtain rfl := Except.ok.inj hrun
    obtain ⟨⟨r, hr⟩, -, hserial⟩ := hends hcalm (.inl rfl) fun _ _ _ _ _ _ => .inl rfl
    have hlog := (hserial (Nat.zero_le 1)).2 Sample.ignoresLog_timed
    refine ⟨r, hr.trans (congrArg (Ending.response r) (hlog.trans ?_))⟩
    rfl

end TypedQuery
