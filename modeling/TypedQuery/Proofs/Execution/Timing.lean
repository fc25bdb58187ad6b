import TypedQuery.Proofs.Execution.Positions
import TypedQuery.Proofs.Execution.Retiming
/-!
Time and the limit on what runs at a time.  When no outcome depends on the call log, neither does the
outline of a run, and nothing in an outline depends on the limit: `response_withLimit`.
-/

namespace TypedQuery

/-- The outcomes of the resolver do not depend on the call log. -/
def Resolver.IgnoresLog (resolver : Resolver) : Prop :=
  ∀ call n m, (resolver call).outcome n = (resolver call).outcome m

/-- No resolver of the schema looks at the call log. -/
def Schema.IgnoresLog (schema : Schema) : Prop :=
  ∀ type name field resolver, schema.field? type name = some field →
    field.resolver = some resolver → resolver.IgnoresLog

theorem Resolver.ignoresLog_getD {resolver : Option Resolver}
    (h : ∀ r, resolver = some r → r.IgnoresLog) :
    (resolver.getD Resolver.property).IgnoresLog := by
  cases resolver with
  | none => exact fun _ _ _ => rfl
  | some r => exact h r rfl

def Config.withLimit (limit : Nat) (config : Config) : Config :=
  { config with maxConcurrentFields := limit }

namespace Execution

/-- The same execution under another limit, in which calls see another log. -/
def paced (exec : Execution) (limit : Nat) (log : CallLog) : Execution :=
  { exec with config := exec.config.withLimit limit, log := log }

variable (exec : Execution) (limit : Nat) (log : CallLog)

theorem outlineValue_paced (object : String → Path → Json → Outline) (info : FieldInfo)
    (nodes : List FieldNode) (type : TypeExpr) :
    (exec.paced limit log).outlineValue object info nodes type =
      exec.outlineValue object info nodes type :=
  @outlineValue_congr exec (exec.paced limit log) object info (fun _ _ _ => rfl) nodes type

theorem outlineCall_paced {resolver : Resolver} (h : resolver.IgnoresLog) (place : Place)
    (call : Call) (outline : Json → Outline) :
    (exec.paced limit log).outlineCall place resolver call outline =
      exec.outlineCall place resolver call outline := by
  have hout : (exec.paced limit log).outcome call.info.path (resolver call) =
      exec.outcome call.info.path (resolver call) := h call _ _
  unfold outlineCall
  dsimp only
  rw [hout]
  rfl

variable (h : exec.schema.IgnoresLog)

include h

theorem outlineFields_paced (object : String → List FieldNode → Path → Json → Outline)
    (parentType : String) (parent : Json) (path : Path) (groups : List FieldGroup) :
    (exec.paced limit log).outlineFields object parentType parent path groups =
      exec.outlineFields object parentType parent path groups := by
  refine List.filterMap_congr fun group _ => ?_
  unfold outlineGroup
  split
  · rfl
  · refine Option.map_congr fun field hfield => ?_
    have hr := Resolver.ignoresLog_getD (h parentType group.first.name field · hfield)
    have hargs : (exec.paced limit log).schema.coerceArguments field group.first.arguments
          (exec.paced limit log).selector.bindings =
        exec.schema.coerceArguments field group.first.arguments exec.selector.bindings := rfl
    unfold outlineField
    rw [hargs]
    cases exec.schema.coerceArguments field group.first.arguments exec.selector.bindings with
    | error rejection => rfl
    | ok arguments =>
      dsimp only
      rw [outlineCall_paced exec limit log hr, outlineValue_paced]
      rfl

theorem outlineObject_paced (depth : Nat) :
    (exec.paced limit log).outlineObject depth = exec.outlineObject depth := by
  induction depth with
  | zero => rfl
  | succ depth ih =>
    funext type nodes path value
    rw [outlineObject, outlineObject, ih, exec.outlineFields_paced limit log h]
    rfl

end Execution

namespace Run

def withLimit (limit : Nat) (run : Run) : Run :=
  { run with config := run.config.withLimit limit }

variable {run : Run} (h : run.selector.schema.IgnoresLog)

include h

theorem outline_withLimit (limit depth : Nat) (log log' : CallLog) :
    (run.withLimit limit).outline depth log' = run.outline depth log := by
  show Outline.set _ (((run.execution log).paced limit log').outlineFields
    (((run.execution log).paced limit log').outlineObject depth) _ _ _ _) = _
  rw [(run.execution log).outlineObject_paced limit log' h,
    (run.execution log).outlineFields_paced limit log' h]
  rfl

theorem response?_withLimit (limit : Nat) :
    (run.withLimit limit).ending.response? = run.ending.response? := by
  have ho := outline_withLimit h limit run.depth run.callLog (run.withLimit limit).callLog
  have hl := (run.withLimit limit).response?_ending
  have hr := run.response?_ending
  dsimp only at hl hr
  rw [hl, hr]
  show (if Outline.escapes ((run.withLimit limit).outline run.depth _) ||
    Outline.hangs run.config.fieldTimeout ((run.withLimit limit).outline run.depth _) then none
    else some ((run.withLimit limit).outline run.depth _).response) = _
  rw [ho]

theorem outline_log (depth : Nat) (log log' : CallLog) :
    run.outline depth log' = run.outline depth log :=
  outline_withLimit h run.config.maxConcurrentFields depth log log'

/-- Calls that see another log leave the same one. -/
theorem log_eq (seen seen' : CallLog) : run.log seen' = run.log seen := by
  obtain ⟨members, ho, hc⟩ := run.complete_eq seen
  obtain ⟨members', ho', hc'⟩ := run.complete_eq seen'
  have hm : members' = members := by
    rw [outline_log h run.depth seen seen', ho] at ho'
    exact (Outline.set.inj ho').2.symm
  unfold log
  rw [hc, hc', hm]

theorem callLog_eq : run.callLog = run.log [] := by
  unfold callLog
  dsimp only
  rw [settle, if_pos (log_eq h [] _)]

/-- One at a time, calls are made in the depth-first order. -/
theorem callLog_serial (hs : run.config.maxConcurrentFields = 1) {r : Response}
    (hr : run.ending.response? = some r) :
    run.callLog =
      CallLog.ofEvents ((run.outline run.depth run.callLog).trace run.config).inOrder := by
  have hwindow : run.config.window = 1 := by rw [Config.window, hs]; rfl
  obtain ⟨-, -, hesc, hh⟩ := run.of_response? hr
  rw [outline_log h run.depth [] run.callLog] at hesc hh ⊢
  rw [callLog_eq h]
  exact congrArg CallLog.ofEvents ((run.inOrder_of_window hwindow []).2 hesc hh)

end Run

/-! ## Other times -/

section Retiming

variable {schema : Schema} {deadline : Option Nat} {resolvers : String → String → Option Resolver}
  (h : schema.Retimed deadline resolvers)

include h

theorem Schema.Retimed.ignoresLog_withResolvers :
    (schema.withResolvers resolvers).IgnoresLog := by
  intro type name field resolver hfield hresolver call n m
  rw [field?_withResolvers, Option.map_eq_some_iff] at hfield
  obtain ⟨own, hown, rfl⟩ := hfield
  have halike := h type name own call hown
  rw [show resolvers type name = some resolver from hresolver] at halike
  exact (halike 0 n).1.symm.trans (halike 0 m).1

end Retiming

theorem Run.response?_withResolvers {run : Run}
    {resolvers : String → String → Option Resolver}
    (h : run.selector.schema.Retimed run.config.fieldTimeout resolvers) :
    (run.withResolvers resolvers).ending.response? = run.ending.response? := by
  let o := run.outline run.depth run.callLog
  let o' := (run.withResolvers resolvers).outline run.depth (run.withResolvers resolvers).callLog
  have hsame : o'.untimed run.config.fieldTimeout = o.untimed run.config.fieldTimeout := by
    have hlog : o' = (run.withResolvers resolvers).outline run.depth run.callLog :=
      outline_log h.ignoresLog_withResolvers _ _ _
    rw [hlog]
    exact run.untimed_outline h run.depth run.callLog
  have hresponse : o'.response = o.response := by
    rw [← Outline.response_untimed run.config.fieldTimeout o', hsame, Outline.response_untimed]
  have hescapes : o'.escapes = o.escapes := by
    rw [← Outline.escapes_untimed run.config.fieldTimeout o', hsame, Outline.escapes_untimed]
  have hhangs : o'.hangs run.config.fieldTimeout = o.hangs run.config.fieldTimeout := by
    rw [← Outline.hangs_untimed run.config.fieldTimeout o', hsame, Outline.hangs_untimed]
  have h' : (run.withResolvers resolvers).ending.response? =
      if o'.escapes || o'.hangs run.config.fieldTimeout then none else some o'.response :=
    (run.withResolvers resolvers).response?_ending
  rw [h', hresponse, hescapes, hhangs]
  exact run.response?_ending.symm

/-! ## Deadlines -/

theorem Execution.pause_eq_cut {deadline : Option Nat} {wait : Wait} {ms : Nat} :
    pause deadline wait = .cut ms ↔ deadline = some ms ∧ wait.outlasts deadline = true := by
  by_cases h : wait.outlasts deadline = true
  · rw [pause_of_outlasts h]
    cases deadline with
    | none => simp
    | some limit => simp [h]
  · rcases pause_of_not_outlasts (Bool.eq_false_iff.2 h) with hp | ⟨time, hp⟩ <;> simp [hp, h]

/-- A position is cut off for its own call alone. -/
theorem Execution.Settled.timedOut_iff {exec : Execution} {place : Place} {o : Outline}
    (h : exec.Settled place o) :
    (∃ field ms, o = .failed (.timedOut field ms)) ↔
      ∃ made ms, place.made = some made ∧ exec.config.fieldTimeout = some ms ∧
        made.duration.outlasts exec.config.fieldTimeout = true := by
  -- neither side holds of a position that is not cut off
  have hneither (ho : ∀ failure, o = .failed failure → failure.isTimeout = false)
      (hp : ∀ made, place.made = some made →
        ∀ ms, pause exec.config.fieldTimeout made.duration ≠ .cut ms) :
      (∃ field ms, o = .failed (.timedOut field ms)) ↔
        ∃ made ms, place.made = some made ∧ exec.config.fieldTimeout = some ms ∧
          made.duration.outlasts exec.config.fieldTimeout = true := by
    constructor
    · rintro ⟨field, ms, hfailed⟩
      cases ho _ hfailed
    · rintro ⟨made, ms, hmade, hlong⟩
      exact absurd (pause_eq_cut.2 hlong) (hp made hmade ms)
  cases h with
  | completed hvalue hmade hc =>
    exact hneither (fun failure hfailed => by rw [hfailed] at hc; exact hc)
      (fun made hm => (hmade made hm).2)
  | typename hmade hvalue hname ho =>
    exact hneither (fun _ hfailed => by rw [ho] at hfailed; cases hfailed)
      (fun made hm => by rw [hmade] at hm; cases hm)
  | rejected hmade hvalue ho =>
    exact hneither (fun _ hfailed => by rw [ho] at hfailed; cases hfailed; rfl)
      (fun made hm => by rw [hmade] at hm; cases hm)
  | @cut made ms hmade hvalue hpause ho =>
    exact ⟨fun _ => ⟨made, ms, hmade, pause_eq_cut.1 hpause⟩, fun _ => ⟨_, _, ho⟩⟩
  | hung hmade hvalue hpause ho =>
    refine hneither (fun _ hfailed => by rw [ho] at hfailed; cases hfailed) fun made hm ms hcut => ?_
    rw [hmade] at hm
    obtain rfl := Option.some.inj hm
    rw [hpause] at hcut
    cases hcut
  | raised hmade hvalue hpause ho =>
    refine hneither (fun failure hfailed => ?_) fun made hm => ?_
    · rcases ho with ⟨own, ho, hown⟩ | ⟨cause, ho⟩
      · rw [ho] at hfailed
        exact Outline.failed.inj hfailed ▸ hown
      · rw [ho] at hfailed
        cases hfailed
    · rw [hmade] at hm
      exact Option.some.inj hm ▸ hpause

/-! ## Requests -/

namespace Schema

/-- Preparing a run looks at no setting. -/
theorem prepare_withLimit (schema : Schema) (limit : Nat) (config : Config) (context : Context)
    (request : Request) :
    schema.prepare (config.withLimit limit) context request =
      (schema.prepare config context request).map (Run.withLimit limit) := by
  rw [prepare_eq, prepare_eq]
  cases request.document.select request.operation with
  | error problem => rfl
  | ok op =>
    dsimp only
    cases schema.rootType? op.kind with
    | none => rfl
    | some rootType =>
      dsimp only
      cases schema.coerceVariables op.variableDefs request.inputs with
      | error errors => rfl
      | ok bindings => rfl

theorem executeValidated_withLimit {schema : Schema} (h : schema.IgnoresLog) (limit : Nat)
    (config : Config) (context : Context) (request : Request) :
    (schema.executeValidated (config.withLimit limit) context request).response? =
      (schema.executeValidated config context request).response? := by
  unfold executeValidated
  rw [prepare_withLimit]
  cases hrun : schema.prepare config context request with
  | error response => rfl
  | ok run =>
    obtain ⟨op, rootType, bindings, -, -, -, hmade⟩ := prepare_eq_ok hrun
    refine Run.response?_withLimit ?_ limit
    rw [hmade]
    exact h

/-- Preparing a run looks at no resolver. -/
theorem prepare_withResolvers (schema : Schema) (resolvers : String → String → Option Resolver)
    (config : Config) (context : Context) (request : Request) :
    (schema.withResolvers resolvers).prepare config context request =
      (schema.prepare config context request).map (Run.withResolvers resolvers) := by
  rw [prepare_eq, prepare_eq]
  cases request.document.select request.operation with
  | error problem => rfl
  | ok op =>
    dsimp only
    rw [show (schema.withResolvers resolvers).rootType? op.kind = schema.rootType? op.kind from rfl]
    cases schema.rootType? op.kind with
    | none => rfl
    | some rootType =>
      dsimp only
      rw [coerceVariables_withResolvers]
      cases schema.coerceVariables op.variableDefs request.inputs with
      | error errors => rfl
      | ok bindings => rfl

theorem executeValidated_withResolvers {schema : Schema} {config : Config}
    {resolvers : String → String → Option Resolver}
    (h : schema.Retimed config.fieldTimeout resolvers) (context : Context) (request : Request) :
    ((schema.withResolvers resolvers).executeValidated config context request).response? =
      (schema.executeValidated config context request).response? := by
  unfold executeValidated
  rw [prepare_withResolvers]
  cases hrun : schema.prepare config context request with
  | error response => rfl
  | ok run =>
    obtain ⟨op, rootType, bindings, -, -, -, hmade⟩ := prepare_eq_ok hrun
    refine Run.response?_withResolvers ?_
    rw [hmade]
    exact h

end Schema

/-- Neither the limit on what runs at a time nor the time that resolvers take makes a difference to a
response: it is that of the outline, in which a position is cut off just when its own call outlasts
the deadline.  One at a time, the calls of the outline are made depth-first. -/
theorem response_withLimit {schema : Schema} (h : schema.IgnoresLog) (config : Config)
    (context : Context) (request : Request) :
    (∀ limit,
      (schema.execute (config.withLimit limit) context request).response? =
        (schema.execute config context request).response? ∧
      (schema.executeValidated (config.withLimit limit) context request).response? =
        (schema.executeValidated config context request).response?) ∧
    (∀ limit resolvers, schema.Retimed config.fieldTimeout resolvers →
      ((schema.withResolvers resolvers).executeValidated (config.withLimit limit) context
          request).response? =
        (schema.executeValidated config context request).response?) ∧
    ∀ run, schema.prepare config context request = .ok run →
      let o := run.outline run.depth run.callLog
      (∀ r, (schema.executeValidated config context request).response? = some r →
        r = o.response ∧
          schema.executeValidated (config.withLimit 1) context request =
            .response r (CallLog.ofEvents (o.trace (config.withLimit 1)).inOrder)) ∧
      ∀ path place inner, o.At path place inner →
        ((∃ field ms, inner = .failed (.timedOut field ms)) ↔
          ∃ made ms, place.made = some made ∧ config.fieldTimeout = some ms ∧
            made.duration.outlasts config.fieldTimeout = true) := by
  refine ⟨fun limit => ⟨?_, Schema.executeValidated_withLimit h limit config context request⟩,
    fun limit resolvers hr => ?_, ?_⟩
  · unfold Schema.execute
    cases schema.validate request.document request.operation request.inputs with
    | nil => exact Schema.executeValidated_withLimit h limit config context request
    | cons error errors => rfl
  · rw [Schema.executeValidated_withLimit hr.ignoresLog_withResolvers,
      Schema.executeValidated_withResolvers hr]
  intro run hrun o
  have hserial := Schema.executeValidated_withLimit h 1 config context request
  obtain ⟨op, rootType, bindings, -, -, -, hmade⟩ := Schema.prepare_eq_ok hrun
  have hlog : run.selector.schema.IgnoresLog := hmade ▸ h
  have hconfig : run.config = config := hmade ▸ rfl
  refine ⟨fun r hr => ?_, fun path place inner hat => ?_⟩
  · rw [hr] at hserial
    unfold Schema.executeValidated at hr hserial ⊢
    rw [Schema.prepare_withLimit] at hserial ⊢
    rw [hrun] at hr hserial ⊢
    obtain ⟨-, hresponse, -, -⟩ := run.of_response? hr
    refine ⟨hresponse, ?_⟩
    have hlimited : (run.withLimit 1).selector.schema.IgnoresLog := hlog
    have hcalls := Run.callLog_serial hlimited rfl hserial
    rw [Run.outline_withLimit hlog] at hcalls
    obtain ⟨hend, -, -, -⟩ := (run.withLimit 1).of_response? hserial
    refine hend.trans (congrArg (Ending.response r) (hcalls.trans ?_))
    rw [← hconfig]
    rfl
  · obtain ⟨-, -, -, hsettled⟩ := run.settled_outline run.depth run.callLog
    rw [← hconfig]
    exact (hsettled path place inner hat).timedOut_iff

namespace Sample

theorem resolver_eq_none {type name : String} {field : FieldDef}
    (hfield : schema.field? type name = some field) : field.resolver = none := by
  have hnone : (schema.types.all fun entry =>
      (entry.2.fields?.getD []).all fun field => field.2.resolver.isNone) = true := rfl
  obtain ⟨owner, fields, howner, hfields, hmem⟩ := Schema.mem_fields hfield
  have hall := List.all_eq_true.1 hnone _ howner
  rw [hfields] at hall
  exact Option.isNone_iff_eq_none.1 (List.all_eq_true.1 hall _ hmem)

theorem ignoresLog_schema : schema.IgnoresLog := by
  intro type name field resolver hfield hresolver
  rw [resolver_eq_none hfield] at hresolver
  cases hresolver

/-- Properties that take their time. -/
def slow (_ name : String) : Option Resolver :=
  some fun call => { Resolver.property call with wait := .sleeps name.length }

theorem retimed_slow : schema.Retimed none slow := by
  intro type name field call hfield
  rw [FieldDef.resolve, resolver_eq_none hfield]
  exact fun _ _ => ⟨rfl, rfl⟩

end Sample

theorem response_withLimit_sample :
    (Sample.schema.execute (Config.standard.withLimit 1) .empty
        (Sample.request Sample.root)).response? =
      (Sample.schema.execute .standard .empty (Sample.request Sample.root)).response? ∧
    ((Sample.schema.withResolvers Sample.slow).executeValidated (Config.standard.withLimit 1) .empty
        (Sample.request Sample.root)).response? =
      (Sample.schema.executeValidated .standard .empty (Sample.request Sample.root)).response? := by
  obtain ⟨hlimit, hslow, -⟩ := response_withLimit Sample.ignoresLog_schema .standard .empty
    (Sample.request Sample.root)
  exact ⟨(hlimit 1).1, hslow 1 Sample.slow Sample.retimed_slow⟩

end TypedQuery
