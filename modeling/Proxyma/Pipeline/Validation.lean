import Proxyma.Protocol
import Proxyma.Lib.Bucket

/-!
# Pipeline schemas

The checks a pipeline definition passes.  `validatePipelineSchema` is the check
of a registry before it stores a definition, `validatePipelineRevision` that of
a replacement, and `validatePrefixMigration` that of a running task before it
adopts a newer definition.

What the rest of the development uses of them is said twice, once per check:
`wellFormed_of_validate` turns an accepted definition into the structure
`WellFormed`, and `prefixKept_of_migration` says that a migration keeps the
identifiers of the completed steps in their places.
-/

namespace Proxyma

open Keyed

/-- The pseudo step whose outputs are the payload of the request. -/
def initialStep : String := "$initial"

variable {current schema : PipelineSchema} {steps : List PipelineStep}

namespace PipelineSchema

/-- The position of a step. -/
def position (schema : PipelineSchema) (stepID : String) : Option ℕ :=
  schema.steps.findIdx? fun step => step.id = stepID

/-- The step identifiers in order. -/
def stepIDs (schema : PipelineSchema) : List String := schema.steps.map PipelineStep.id

theorem position_eq_some {stepID : String} {i : ℕ} (h : schema.position stepID = some i) :
    ∃ step, schema.steps[i]? = some step ∧ step.id = stepID := by
  obtain ⟨hlt, hid, -⟩ := List.findIdx?_eq_some_iff_getElem.1 h
  exact ⟨schema.steps[i], List.getElem?_eq_getElem hlt, by simpa using hid⟩

end PipelineSchema

/-! ## Cycles -/

/-- The edges `PipelineHasCycle` counts: each pair of known steps once. -/
def cycleEdges (schema : PipelineSchema) : List (String × String) :=
  schema.connections.foldl (fun seen conn =>
    if conn.fromStep = initialStep ∨ conn.fromStep = "" ∨ conn.toStep = "" then seen
    else if conn.fromStep ∉ schema.stepIDs ∨ conn.toStep ∉ schema.stepIDs then seen
    else if (conn.fromStep, conn.toStep) ∈ seen then seen
    else seen ++ [(conn.fromStep, conn.toStep)]) []

/-- One connection is looked at: the first loop of `PipelineHasCycle`. -/
def addEdge (schema : PipelineSchema) (seen : List (String × String))
    (conn : PipelineConnection) : List (String × String) :=
  if conn.fromStep = initialStep ∨ conn.fromStep = "" ∨ conn.toStep = "" then seen
  else if conn.fromStep ∉ schema.stepIDs ∨ conn.toStep ∉ schema.stepIDs then seen
  else if (conn.fromStep, conn.toStep) ∈ seen then seen
  else seen ++ [(conn.fromStep, conn.toStep)]

/-- The number of edges into each step. -/
def inDegrees (schema : PipelineSchema) : Bucket String ℤ :=
  (cycleEdges schema).foldl (fun inDegree edge =>
    inDegree.put edge.2 ((inDegree.get edge.2).getD 0 + 1))
    (Bucket.empty.putAll schema.stepIDs 0)

/-- The loop of `PipelineHasCycle`: take a step from the queue, lower the degree
of its successors and queue those that reach zero.  Every step is queued at most
once, so the number of steps bounds the rounds. -/
def visitSteps (edges : List (String × String)) : ℕ → List String → Bucket String ℤ → ℕ → ℕ
  | 0, _, _, visited => visited
  | _ + 1, [], _, visited => visited
  | rounds + 1, n :: queue, inDegree, visited =>
    let (inDegree, queue) := (edges.filter fun e => e.1 = n).foldl (fun (inDegree, queue) e =>
      let degree := (inDegree.get e.2).getD 0 - 1
      (inDegree.put e.2 degree, if degree = 0 then queue ++ [e.2] else queue)) (inDegree, queue)
    visitSteps edges rounds queue inDegree (visited + 1)

def pipelineHasCycle (schema : PipelineSchema) : Bool :=
  let inDegree := inDegrees schema
  let queue := (inDegree.entries.filter fun e => e.2 = 0).map Prod.fst
  visitSteps (cycleEdges schema) inDegree.entries.length queue inDegree 0 < schema.steps.length

/-! ## Definitions -/

def errEmptyPipelineID : GoError := .new "pipeline ID cannot be empty"

/-- The loop of `ValidatePipelineSchema` over the steps; `seen` are the
identifiers met so far. -/
def validateSteps : List String → List PipelineStep → Option GoError
  | _, [] => none
  | seen, step :: rest =>
    if step.id = "" then some (.errorf "step ID cannot be empty" [])
    else if step.service = "" then
      some (.errorf "step '%s' service name cannot be empty" [step.id])
    else if step.id ∈ seen then
      some (.errorf ("duplicate step ID found: '%s'. " ++
        "Each step in a pipeline must have a unique ID") [step.id])
    else validateSteps (seen ++ [step.id]) rest

/-- A `[]string` printed with `%v`. -/
def formatList (items : List String) : String := "[" ++ String.intercalate " " items ++ "]"

/-- One round of `ValidatePipelineSchema` over the connections, without the port
checks, which need service schemas. -/
def validateConnection (schema : PipelineSchema) (conn : PipelineConnection) : Option GoError :=
  let link := [conn.fromStep, conn.fromPort, conn.toStep, conn.toPort]
  let source := schema.position conn.fromStep
  if conn.fromStep ≠ initialStep ∧ source.isNone then
    some (.errorf ("invalid connection link [%s].%s ──► [%s].%s: " ++
      "source step '%s' is not defined in pipeline steps %v")
      (link ++ [conn.fromStep, formatList schema.stepIDs]))
  else
    match schema.position conn.toStep with
    | none =>
      some (.errorf ("invalid connection link [%s].%s ──► [%s].%s: " ++
        "target step '%s' is not defined in pipeline steps %v")
        (link ++ [conn.toStep, formatList schema.stepIDs]))
    | some toPos =>
      if conn.fromStep ≠ initialStep ∧ toPos ≤ source.getD 0 then
        some (.errorf ("pipeline steps are not in topological order: " ++
          "connection [%s].%s ──► [%s].%s requires step '%s' to appear before step '%s'")
          (link ++ [conn.fromStep, conn.toStep]))
      else none

/-- `ValidatePipelineSchema(schema, nil)`, the check of every registry. -/
def validatePipelineSchema (schema : PipelineSchema) : Option GoError :=
  if schema.id = "" then some errEmptyPipelineID
  else if schema.steps = [] then some (.errorf "pipeline must have at least one step" [])
  else
    match validateSteps [] schema.steps with
    | some err => some err
    | none =>
      if pipelineHasCycle schema then
        some (.errorf "pipeline contains a cycle in Connections" [])
      else schema.connections.findSome? (validateConnection schema)

/-- What an accepted definition satisfies: distinct steps, and connections that
run forward. -/
structure PipelineSchema.WellFormed (schema : PipelineSchema) : Prop where
  steps_ne_nil : schema.steps ≠ []
  nodup : schema.stepIDs.Nodup
  forward : ∀ conn ∈ schema.connections, conn.fromStep ≠ initialStep →
    ∃ i j, schema.position conn.fromStep = some i ∧ schema.position conn.toStep = some j ∧ i < j

theorem nodup_of_validateSteps {seen : List String} (hseen : seen.Nodup)
    (h : validateSteps seen steps = none) : (seen ++ steps.map PipelineStep.id).Nodup := by
  induction steps generalizing seen with
  | nil => simpa using hseen
  | cons step rest ih =>
    simp only [validateSteps] at h
    split_ifs at h with hid hservice hnew
    have hseen' : (seen ++ [step.id]).Nodup := by
      refine List.nodup_append.2 ⟨hseen, by simp, ?_⟩
      rintro a ha b hb rfl
      obtain rfl : a = step.id := by simpa using hb
      exact hnew ha
    simpa using ih hseen' h

theorem forward_of_validateConnection {conn : PipelineConnection}
    (h : validateConnection schema conn = none) (hfrom : conn.fromStep ≠ initialStep) :
    ∃ i j, schema.position conn.fromStep = some i ∧ schema.position conn.toStep = some j ∧
      i < j := by
  simp only [validateConnection] at h
  split_ifs at h with hsource
  obtain ⟨i, hi⟩ : ∃ i, schema.position conn.fromStep = some i := by
    cases hpos : schema.position conn.fromStep with
    | none => exact absurd ⟨hfrom, by rw [hpos]; rfl⟩ hsource
    | some i => exact ⟨i, rfl⟩
  split at h
  · cases h
  rename_i j hj
  split_ifs at h with horder
  refine ⟨i, j, hi, hj, ?_⟩
  rw [hi] at horder
  simp only [Option.getD_some, not_and, not_le] at horder
  exact horder hfrom

theorem wellFormed_of_validate (h : validatePipelineSchema schema = none) : schema.WellFormed := by
  simp only [validatePipelineSchema] at h
  cases hvalid : validateSteps [] schema.steps with
  | some err =>
    rw [hvalid] at h
    split_ifs at h
  | none =>
    rw [hvalid] at h
    split_ifs at h with hid hsteps hcycle
    refine ⟨hsteps, ?_, ?_⟩
    · simpa [PipelineSchema.stepIDs] using nodup_of_validateSteps List.nodup_nil hvalid
    · intro conn hconn
      exact forward_of_validateConnection (List.findSome?_eq_none_iff.1 h conn hconn)

/-- `ValidatePipelineRevision`, for a hash of definitions. -/
def validatePipelineRevision (pipelineSchemaHash : PipelineSchema → String)
    (current next : PipelineSchema) : Option GoError :=
  if current.id ≠ next.id then
    some (.errorf "pipeline schema ID mismatch: current %q, incoming %q" [current.id, next.id])
  else if next.version < current.version then
    some (.errorf ("pipeline '%s' schema downgrade rejected: " ++
      "incoming version %d is older than current version %d")
      [next.id, toString next.version, toString current.version])
  else if current.version < next.version then none
  else if pipelineSchemaHash { next with deleted := false } ≠
      pipelineSchemaHash { current with deleted := false } then
    some (.errorf "pipeline '%s' schema mismatch at version %d" [next.id, toString next.version])
  else if current.deleted ∧ !next.deleted then
    some (.errorf "pipeline '%s' cannot resurrect deleted version %d"
      [next.id, toString next.version])
  else none

/-! ## Migrations -/

/-- The first loop of `ValidatePrefixMigration`, over the completed steps and the
steps of the updated schema from position `i` on. -/
def validatePrefixIdentity (current : PipelineSchema) :
    ℕ → List String → List PipelineStep → Option GoError
  | _, [], _ => none
  | _, _ :: _, [] => none
  | i, completedID :: completed, updatedStep :: rest =>
    if updatedStep.id ≠ completedID then
      some (.errorf ("prefix identity violation: step at index %d is %q in updated schema, " ++
        "expected completed step %q") [toString i, updatedStep.id, completedID])
    else
      -- the map of the current steps keeps the last one of each identifier
      match current.steps.reverse.find? fun step => step.id = completedID with
      | none =>
        some (.errorf ("prefix identity violation: completed step %q " ++
          "missing from current schema") [completedID])
      | some origStep =>
        if updatedStep.service ≠ origStep.service then
          some (.errorf ("prefix identity violation: completed step %q " ++
            "service modified from %q to %q")
            [completedID, origStep.service, updatedStep.service])
        else if updatedStep.targetNodeID ≠ origStep.targetNodeID then
          some (.errorf ("prefix identity violation: completed step %q " ++
            "target node modified from %q to %q")
            [completedID, origStep.targetNodeID, updatedStep.targetNodeID])
        else validatePrefixIdentity current (i + 1) completed rest

/-- The second loop: identifiers of the updated schema are not empty and differ. -/
def validateUpdatedSteps : List String → List PipelineStep → Option GoError
  | _, [] => none
  | seen, step :: rest =>
    if step.id = "" then some (.errorf "step ID cannot be empty in updated schema" [])
    else if step.id ∈ seen then
      some (.errorf "duplicate step ID %q in updated schema" [step.id])
    else validateUpdatedSteps (seen ++ [step.id]) rest

/-- One round of the third loop, over the connections of the updated schema. -/
def validateUpdatedConnection (completedSteps : List String)
    (outputs : Option (List (String × JsonMap))) (updated : PipelineSchema)
    (conn : PipelineConnection) : Option GoError :=
  let link := [conn.fromStep, conn.fromPort, conn.toStep, conn.toPort]
  if conn.fromStep = initialStep ∨ conn.fromStep = "" then none
  else
    match updated.position conn.fromStep, updated.position conn.toStep with
    | none, _ =>
      some (.errorf "connection source step %q not found in updated schema" [conn.fromStep])
    | some _, none =>
      some (.errorf "connection target step %q not found in updated schema" [conn.toStep])
    | some fromPos, some toPos =>
      if toPos ≤ fromPos then
        some (.errorf ("pipeline steps are not in topological order: " ++
          "connection [%s].%s -> [%s].%s requires step %q to appear before step %q")
          (link ++ [conn.fromStep, conn.toStep]))
      else if conn.fromStep ∈ completedSteps then
        match lookupKey (outputs.getD []) conn.fromStep with
        | none =>
          some (.errorf ("output port satisfaction violation: completed step %q " ++
            "has no recorded outputs for connection [%s].%s -> [%s].%s")
            (conn.fromStep :: link))
        | some stepOutputs =>
          if (lookupKey stepOutputs conn.fromPort).isNone then
            some (.errorf ("output port satisfaction violation: " ++
              "connection [%s].%s -> [%s].%s requires output port %q from " ++
              "completed step %q which was not produced")
              (link ++ [conn.fromPort, conn.fromStep]))
          else none
      else if toPos ≤ completedSteps.length then
        some (.errorf ("retroactive dependency violation: upcoming step %q " ++
          "at index %d depends on unexecuted step %q")
          [conn.toStep, toString toPos, conn.fromStep])
      else none

def validatePrefixMigration (completedSteps : List String)
    (outputs : Option (List (String × JsonMap))) (current updated : PipelineSchema) :
    Option GoError :=
  if current.id ≠ updated.id then
    some (.errorf "pipeline schema ID mismatch: current %q, updated %q" [current.id, updated.id])
  else if updated.deleted then
    some (.errorf "cannot migrate pipeline '%s' to a deleted schema" [updated.id])
  else if updated.version < current.version then
    some (.errorf ("pipeline '%s' schema downgrade rejected: " ++
      "updated version %d is older than current %d")
      [updated.id, toString updated.version, toString current.version])
  else if updated.steps = [] then
    some (.errorf "updated pipeline '%s' must have at least one step" [updated.id])
  else if pipelineHasCycle updated then
    some (.errorf "updated pipeline '%s' schema contains cycles" [updated.id])
  else if updated.steps.length < completedSteps.length then
    some (.errorf ("prefix identity violation: updated schema has %d steps, " ++
      "but %d steps already completed")
      [toString updated.steps.length, toString completedSteps.length])
  else
    match validatePrefixIdentity current 0 completedSteps updated.steps with
    | some err => some err
    | none =>
      match validateUpdatedSteps [] updated.steps with
      | some err => some err
      | none => updated.connections.findSome?
          (validateUpdatedConnection completedSteps outputs updated)

theorem isPrefix_of_validatePrefixIdentity {i : ℕ} {completed : List String}
    (hlen : completed.length ≤ steps.length)
    (h : validatePrefixIdentity current i completed steps = none) :
    (steps.take completed.length).map PipelineStep.id = completed := by
  induction completed generalizing i steps with
  | nil => simp
  | cons completedID completed ih =>
    rcases steps with _ | ⟨step, rest⟩
    · simp at hlen
    simp only [validatePrefixIdentity] at h
    split_ifs at h with hid
    split at h
    · cases h
    · split_ifs at h
      simpa [not_not.1 hid] using ih (by simpa using hlen) h

theorem prefixKept_of_migration {completedSteps : List String}
    {outputs : Option (List (String × JsonMap))} {updated : PipelineSchema}
    (h : validatePrefixMigration completedSteps outputs current updated = none) :
    completedSteps.length ≤ updated.steps.length ∧
      updated.stepIDs.take completedSteps.length = completedSteps := by
  simp only [validatePrefixMigration] at h
  cases hextends : validatePrefixIdentity current 0 completedSteps updated.steps with
  | some err =>
    rw [hextends] at h
    split_ifs at h
  | none =>
    rw [hextends] at h
    split_ifs at h with hid hdeleted hversion hsteps hcycle hlen
    refine ⟨not_lt.1 hlen, ?_⟩
    rw [PipelineSchema.stepIDs, ← List.map_take]
    exact isPrefix_of_validatePrefixIdentity (not_lt.1 hlen) hextends

end Proxyma
