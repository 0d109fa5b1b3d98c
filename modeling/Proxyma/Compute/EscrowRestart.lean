import Proxyma.Compute.Dispatching
import Proxyma.Compute.Escrow
import Proxyma.Compute.StatusLaw

/-!
# Escrow entries after a restart

What a coordinator has in escrow is also in its journal, as the active record of the
task, and `RestoreEscrowTask` makes an entry of that record after a restart.  The two
entries need not be alike: the record is the overlay of the request on what was
recorded before, it knows neither the outputs nor the sender of the request, and a
request for a step that is already in escrow is not recorded at all.

`ResumesAlike` lists what a resumption reads of an entry, and `resume_same_iff` shows
that two entries resume with the same request just when they agree on that.  For a
request that is recorded this comes down to `Overlays`, a condition on the request and
the record it is laid over.
-/

namespace Proxyma

/-- Two Go maps hold the same. -/
def SameMap {V : Type} (a b : List (String × V)) : Prop :=
  ∀ key, lookupKey a key = lookupKey b key

variable {V : Type}

theorem SameMap.refl (a : List (String × V)) : SameMap a a := fun _ => rfl

theorem lookupKey_mergeMap (dst src : List (String × V)) (key : String) :
    lookupKey (mergeMap dst src false) key = (lookupKey dst key).or (lookupKey src key) := by
  unfold mergeMap
  induction src generalizing dst with
  | nil => simp
  | cons e src ih =>
    rw [List.foldl_cons, ih, lookupKey_cons]
    by_cases hnew : (lookupKey dst e.1).isNone
    · simp only [hnew, or_true, if_true, lookupKey_assignKey]
      by_cases hkey : key = e.1
      · subst hkey
        simp [Option.isNone_iff_eq_none.1 hnew]
      · simp [hkey, Ne.symm hkey]
    · simp only [hnew, Bool.false_eq_true, or_self, if_false]
      by_cases hkey : e.1 = key
      · subst hkey
        obtain ⟨value, hvalue⟩ := Option.ne_none_iff_exists'.1 (mt Option.isNone_iff_eq_none.2 hnew)
        simp [hvalue]
      · simp [hkey]

theorem lookupKey_mergeMap_of_none (dst src : List (String × V)) (overwrite : Bool) {key : String}
    (h : lookupKey src key = none) :
    lookupKey (mergeMap dst src overwrite) key = lookupKey dst key := by
  unfold mergeMap
  induction src generalizing dst with
  | nil => rfl
  | cons e src ih =>
    rw [lookupKey_cons] at h
    split_ifs at h with hkey
    rw [List.foldl_cons, ih _ h]
    split_ifs
    · rw [lookupKey_assignKey, if_neg (Ne.symm hkey)]
    · rfl

end Proxyma

namespace Proxyma.Compute

open Keyed Atomic Atomic.Call GoError

variable {s : Engine} {schema : PipelineSchema} {step : PipelineStep} {c : Node}
  {entry e : TaskEscrowRequest} {record t : Storage.TaskRecord} {state : PipelineExecutionState}
  {w : World} {task : TaskEscrowRequest} {stepID : String}

/-! ## What a resumption reads -/

/-- Two states that are the same as Go values; their maps need not be in the same
order. -/
structure StatesAlike (a b : PipelineExecutionState) : Prop where
  pipelineID : a.pipelineID = b.pipelineID
  pipelineVersion : a.pipelineVersion = b.pipelineVersion
  schemaHash : a.schemaHash = b.schemaHash
  currentStep : a.currentStep = b.currentStep
  snapshot : a.snapshot = b.snapshot
  outputs : SameMap (a.outputs.getD []) (b.outputs.getD [])
  outputProducers : SameMap (a.outputProducers.getD []) (b.outputProducers.getD [])
  selectedTargets : SameMap (a.selectedTargets.getD []) (b.selectedTargets.getD [])

/-- Two requests that are the same as Go values. -/
structure RequestsAlike (a b : TaskRequest) : Prop where
  taskID : a.taskID = b.taskID
  service : a.service = b.service
  requesterNodeID : a.requesterNodeID = b.requesterNodeID
  replyTo : a.replyTo = b.replyTo
  expectedProducerNodeID : a.expectedProducerNodeID = b.expectedProducerNodeID
  payload : SameMap (a.payload.getD []) (b.payload.getD [])
  pipelineState : Option.Rel StatesAlike a.pipelineState b.pipelineState

/-- The state a resumption starts from. -/
def resumeStart (task : TaskEscrowRequest) (schema : PipelineSchema) : PipelineExecutionState :=
  task.pipelineState.getD
    { pipelineID := schema.id
      pipelineVersion := schema.version
      currentStep := task.stepIndex
      outputs := some [] }

/-- The producers of a state with that of the initial payload. -/
def initialProducers (state : PipelineExecutionState) (requesterNodeID : String) :
    List (String × String) :=
  if state.producer initialStep = "" then
    assignKey (state.outputProducers.getD []) initialStep requesterNodeID
  else state.outputProducers.getD []

/-- The step before that of an entry, if its sender may be filled in as its
producer. -/
def senderStep (task : TaskEscrowRequest) (schema : PipelineSchema) : Option PipelineStep :=
  if 0 < task.stepIndex ∧ task.producerNodeID ≠ "" then schema.stepAt (task.stepIndex - 1) else none

/-- The producers a task leaves escrow with. -/
def resumeProducers (task : TaskEscrowRequest) (schema : PipelineSchema) : List (String × String) :=
  let producers := initialProducers (resumeStart task schema) task.requesterNodeID
  match senderStep task schema with
  | none => producers
  | some previous =>
    if (lookupKey producers previous.id).getD "" = "" then
      assignKey producers previous.id task.producerNodeID
    else producers

theorem ensureInitialProducer_producers (state : PipelineExecutionState) (nodeID : String) :
    state.ensureInitialProducer nodeID =
      { state with outputProducers := some (initialProducers state nodeID) } := by
  unfold PipelineExecutionState.ensureInitialProducer initialProducers
  by_cases hunknown : state.producer initialStep = ""
  · rw [if_pos hunknown]
    exact if_pos hunknown
  · rw [if_neg hunknown]
    exact if_neg hunknown

theorem setSender_eq (state : PipelineExecutionState) (producers : List (String × String))
    (previous : Option PipelineStep) (nodeID : String) :
    (match previous with
      | none => { state with outputProducers := some producers }
      | some previous =>
        if PipelineExecutionState.producer
            { state with outputProducers := some producers } previous.id = "" then
          PipelineExecutionState.setProducer
            { state with outputProducers := some producers } previous.id nodeID
        else { state with outputProducers := some producers }) =
      { state with outputProducers := some (match previous with
        | none => producers
        | some previous =>
          if (lookupKey producers previous.id).getD "" = "" then
            assignKey producers previous.id nodeID
          else producers) } := by
  rcases previous with _ | previous
  · rfl
  dsimp only
  by_cases hunknown : (lookupKey producers previous.id).getD "" = ""
  · rw [if_pos hunknown]
    exact if_pos hunknown
  · rw [if_neg hunknown]
    exact if_neg hunknown

theorem resumeState_eq (c : Node) (task : TaskEscrowRequest) (schema : PipelineSchema)
    (step : PipelineStep) (target : String) :
    let start := resumeStart task schema
    resumeState c task schema task.stepIndex step target =
      { pipelineID := start.pipelineID
        pipelineVersion := start.pipelineVersion
        schemaHash :=
          if start.schemaHash = "" then c.pipelineSchemaHash schema else start.schemaHash
        currentStep := start.currentStep
        outputs := some (mergeMap (start.outputs.getD []) (task.outputs.getD []) false)
        outputProducers := some (resumeProducers task schema)
        selectedTargets := some (assignKey (start.selectedTargets.getD []) step.id target)
        snapshot := some (start.snapshot.getD schema) } := by
  set start := resumeStart task schema with hstart
  let filled : PipelineExecutionState := { start with
    schemaHash := if start.schemaHash = "" then c.pipelineSchemaHash schema else start.schemaHash
    snapshot := some (start.snapshot.getD schema)
    outputs := some (mergeMap (start.outputs.getD []) (task.outputs.getD []) false) }
  have hsender := setSender_eq filled (initialProducers start task.requesterNodeID)
    (senderStep task schema) task.producerNodeID
  unfold resumeState
  simp only [ensureInitialProducer_producers]
  exact congrArg (PipelineExecutionState.setTarget · step.id target) hsender

/-- What has to be the same of two entries of one pipeline definition for the same
step, if they are to resume with the same request. -/
structure ResumesAlike (c : Node) (schema : PipelineSchema) (a : TaskEscrowRequest)
    (stepA : PipelineStep) (b : TaskEscrowRequest) (stepB : PipelineStep) : Prop where
  taskID : a.taskID = b.taskID
  service : a.service = b.service
  requesterNodeID : a.requesterNodeID = b.requesterNodeID
  replyTo : a.replyTo = b.replyTo
  payload : SameMap (a.payload.getD []) (b.payload.getD [])
  stepID : stepA.id = stepB.id
  pipelineID : (resumeStart a schema).pipelineID = (resumeStart b schema).pipelineID
  pipelineVersion : (resumeStart a schema).pipelineVersion = (resumeStart b schema).pipelineVersion
  schemaHash :
    (if (resumeStart a schema).schemaHash = "" then c.pipelineSchemaHash schema
      else (resumeStart a schema).schemaHash) =
    if (resumeStart b schema).schemaHash = "" then c.pipelineSchemaHash schema
      else (resumeStart b schema).schemaHash
  currentStep : (resumeStart a schema).currentStep = (resumeStart b schema).currentStep
  snapshot :
    (resumeStart a schema).snapshot.getD schema = (resumeStart b schema).snapshot.getD schema
  outputs : ∀ key,
    (lookupKey ((resumeStart a schema).outputs.getD []) key).or (lookupKey (a.outputs.getD []) key) =
    (lookupKey ((resumeStart b schema).outputs.getD []) key).or (lookupKey (b.outputs.getD []) key)
  producers : SameMap (resumeProducers a schema) (resumeProducers b schema)
  targets : ∀ key, key ≠ stepA.id →
    lookupKey ((resumeStart a schema).selectedTargets.getD []) key =
      lookupKey ((resumeStart b schema).selectedTargets.getD []) key

/-- Two assignments of whatever value agree if they are to the same key, and the maps
agree elsewhere. -/
theorem assignKey_same_iff (m m' : List (String × String)) (key key' : String) :
    (∀ value, SameMap (assignKey m key value) (assignKey m' key' value)) ↔
      key = key' ∧ ∀ other, other ≠ key → lookupKey m other = lookupKey m' other := by
  constructor
  · intro h
    have hkey : key = key' := by
      by_contra hne
      -- the value under the first key would have to be every value
      have hany : ∀ value, some value = lookupKey m' key := fun value => by
        simpa [lookupKey_assignKey, hne] using h value key
      exact absurd ((hany "a").trans (hany "b").symm) (by decide)
    subst hkey
    refine ⟨rfl, fun other hother => ?_⟩
    simpa [lookupKey_assignKey, hother] using h "" other
  · rintro ⟨rfl, h⟩ value other
    rw [lookupKey_assignKey, lookupKey_assignKey]
    split_ifs with hother
    · rfl
    · exact h other hother

theorem resume_same_iff (c : Node) (schema : PipelineSchema) (a b : TaskEscrowRequest)
    (stepA stepB : PipelineStep) :
    (∀ target, RequestsAlike (resumeRequest c a schema a.stepIndex stepA target)
      (resumeRequest c b schema b.stepIndex stepB target)) ↔
    ResumesAlike c schema a stepA b stepB := by
  constructor
  · intro h
    have hstate : ∀ target, StatesAlike (resumeState c a schema a.stepIndex stepA target)
        (resumeState c b schema b.stepIndex stepB target) := by
      intro target
      have hrel := (h target).pipelineState
      simpa [resumeRequest] using hrel
    obtain ⟨hid, htargets⟩ := (assignKey_same_iff _ _ stepA.id stepB.id).1 fun target => by
      have hselected := (hstate target).selectedTargets
      rwa [resumeState_eq, resumeState_eq] at hselected
    have hany := hstate ""
    rw [resumeState_eq, resumeState_eq] at hany
    refine ⟨(h "").taskID, (h "").service, (h "").requesterNodeID, (h "").replyTo,
      (h "").payload, hid, hany.pipelineID, hany.pipelineVersion, hany.schemaHash,
      hany.currentStep, ?_, fun key => ?_, hany.outputProducers, htargets⟩
    · exact Option.some.inj hany.snapshot
    · have houtputs := hany.outputs key
      simpa only [Option.getD_some, lookupKey_mergeMap] using houtputs
  · intro h target
    refine ⟨h.taskID, h.service, h.requesterNodeID, h.replyTo, rfl, h.payload, .some ?_⟩
    rw [resumeState_eq, resumeState_eq]
    refine ⟨h.pipelineID, h.pipelineVersion, h.schemaHash, h.currentStep,
      congrArg some h.snapshot, fun key => ?_, h.producers,
      (assignKey_same_iff _ _ _ _).2 ⟨h.stepID, h.targets⟩ target⟩
    simpa only [Option.getD_some, lookupKey_mergeMap] using h.outputs key

/-! ## The entry of a record -/

/-- The definition and the step a resumption finds for an entry. -/
def resumePlan (s : Engine) (task : TaskEscrowRequest) : Option (PipelineSchema × PipelineStep) :=
  (sentSchema s task.service task.pipelineState).bind fun schema =>
    (schema.stepAt task.stepIndex).map fun step => (schema, step)

theorem resumePlan_eq_some : resumePlan s task = some (schema, step) ↔
      sentSchema s task.service task.pipelineState = some schema ∧
        schema.stepAt task.stepIndex = some step := by
  simp only [resumePlan, Option.bind_eq_some_iff, Option.map_eq_some_iff, Prod.mk.injEq]
  constructor
  · rintro ⟨_, hschema, _, hstep, rfl, rfl⟩
    exact ⟨hschema, hstep⟩
  · rintro ⟨hschema, hstep⟩
    exact ⟨schema, hschema, step, hstep, rfl, rfl⟩

/-- The entry that `RestoreEscrowTask` makes of a record, unless it panics. -/
def restoredFrom (task : Storage.TaskRecord) : Option TaskEscrowRequest :=
  match task.pipelineState.bind PipelineExecutionState.snapshot with
  | none => some (restoredEntry task task.currentStepID)
  | some snapshot =>
    if task.currentStepID = "" ∧ task.currentStep < snapshot.steps.length then
      (snapshot.stepAt task.currentStep).map fun step => restoredEntry task step.id
    else some (restoredEntry task task.currentStepID)

/-- After a restart the task would be resumed as it would be now: the entry that the
active record is restored to makes the same request as the entry in memory. -/
def RestoredAlike (c : Node) (s : Engine) (id : String) : Prop :=
  ∀ entry schema step, s.escrow.get id = some entry → resumePlan s entry = some (schema, step) →
    ∃ record restored schema' step', s.db.tasksActive.get id = some record ∧
      restoredFrom record = some restored ∧ resumePlan s restored = some (schema', step') ∧
      ∀ target, RequestsAlike (resumeRequest c restored schema' restored.stepIndex step' target)
        (resumeRequest c entry schema entry.stepIndex step target)

/-- A record that is restored to an entry which resumes as the given one does. -/
def Holds (c : Node) (s : Engine) (entry : TaskEscrowRequest) (schema : PipelineSchema)
    (step : PipelineStep) (record : Storage.TaskRecord) : Prop :=
  sentSchema s record.service record.pipelineState = some schema ∧
    ∃ step', schema.stepAt record.currentStep = some step' ∧
      ResumesAlike c schema (restoredEntry record "") step' entry step

/-- A resumption reads neither the name of the step nor the time. -/
theorem resumesAlike_unread {a b : TaskEscrowRequest} {stepA stepB : PipelineStep} {timestamp : ℤ} :
    ResumesAlike c schema { a with stepID := stepID, timestamp := timestamp } stepA b stepB ↔
      ResumesAlike c schema a stepA b stepB :=
  ⟨fun h => ⟨h.1, h.2, h.3, h.4, h.5, h.6, h.7, h.8, h.9, h.10, h.11, h.12, h.13, h.14⟩,
    fun h => ⟨h.1, h.2, h.3, h.4, h.5, h.6, h.7, h.8, h.9, h.10, h.11, h.12, h.13, h.14⟩⟩

theorem resumesAlike_stepID {step' : PipelineStep} :
    ResumesAlike c schema (restoredEntry record stepID) step' entry step ↔
      ResumesAlike c schema (restoredEntry record "") step' entry step :=
  resumesAlike_unread (a := restoredEntry record "")

theorem holds_times {created updated : ℤ} :
    Holds c s entry schema step { record with createdAt := created, updatedAt := updated } ↔
      Holds c s entry schema step record := by
  refine and_congr_right fun _ => exists_congr fun step' => and_congr_right fun _ => ?_
  exact resumesAlike_unread (a := restoredEntry record "")

theorem restoredFrom_eq_some {restored : TaskEscrowRequest}
    (h : restoredFrom record = some restored) :
    ∃ stepID, restored = restoredEntry record stepID := by
  unfold restoredFrom at h
  split at h
  · exact ⟨_, (Option.some.inj h).symm⟩
  · split_ifs at h
    · obtain ⟨step, -, rfl⟩ := Option.map_eq_some_iff.1 h
      exact ⟨_, rfl⟩
    · exact ⟨_, (Option.some.inj h).symm⟩

theorem restoredFrom_of_stepAt (h : schema.stepAt record.currentStep = some step) :
    ∃ stepID, restoredFrom record = some (restoredEntry record stepID) := by
  have hindex : 0 ≤ record.currentStep := by
    by_contra hneg
    simp [PipelineSchema.stepAt, hneg] at h
  unfold restoredFrom
  split
  · exact ⟨_, rfl⟩
  split_ifs with hlookup
  · rename_i snapshot _
    have hstep : (snapshot.stepAt record.currentStep).isSome := by
      have hlt : record.currentStep.toNat < snapshot.steps.length := by omega
      simp [PipelineSchema.stepAt, hindex, hlt]
    obtain ⟨step', hstep'⟩ := Option.isSome_iff_exists.1 hstep
    rw [hstep']
    exact ⟨_, rfl⟩
  · exact ⟨_, rfl⟩

/-- The definition found for an entry is the one it leaves escrow with, unless it is
registered. -/
theorem sentSchema_carried (h : sentSchema s task.service task.pipelineState = some schema)
    (hregistered : s.pipelines.get task.service = none) :
    (resumeStart task schema).snapshot.getD schema = schema := by
  rw [sentSchema, hregistered, Option.none_or] at h
  obtain ⟨state, hstate, hsnapshot⟩ := Option.bind_eq_some_iff.1 h
  simp [resumeStart, hstate, hsnapshot]

theorem restored_alike_iff (hplan : resumePlan s entry = some (schema, step)) :
    (∃ restored schema' step', restoredFrom record = some restored ∧
      resumePlan s restored = some (schema', step') ∧
      ∀ target, RequestsAlike (resumeRequest c restored schema' restored.stepIndex step' target)
        (resumeRequest c entry schema entry.stepIndex step target)) ↔
    Holds c s entry schema step record := by
  obtain ⟨hschema, -⟩ := resumePlan_eq_some.1 hplan
  constructor
  · rintro ⟨restored, schema', step', hrestored, hplan', halike⟩
    obtain ⟨hschema', hstep'⟩ := resumePlan_eq_some.1 hplan'
    -- both find the registered definition, or both carry the one they leave with
    obtain rfl : schema' = schema := by
      have hservice : restored.service = entry.service := (halike "").service
      cases hregistered : s.pipelines.get entry.service with
      | some registered =>
        rw [sentSchema, hservice, hregistered] at hschema'
        rw [sentSchema, hregistered] at hschema
        exact Option.some.inj (hschema'.symm.trans hschema)
      | none =>
        have hstate : StatesAlike (resumeState c restored schema' restored.stepIndex step' "")
            (resumeState c entry schema entry.stepIndex step "") := by
          simpa [resumeRequest] using (halike "").pipelineState
        have hsnapshot := hstate.snapshot
        rw [resumeState_eq, resumeState_eq] at hsnapshot
        have heq := Option.some.inj hsnapshot
        rwa [sentSchema_carried hschema' (by rw [hservice]; exact hregistered),
          sentSchema_carried hschema hregistered] at heq
    obtain ⟨stepID, rfl⟩ := restoredFrom_eq_some hrestored
    exact ⟨hschema', step', hstep',
      resumesAlike_stepID.1 ((resume_same_iff _ _ _ _ _ _).1 halike)⟩
  · rintro ⟨hschema', step', hstep', halike⟩
    obtain ⟨stepID, hrestored⟩ := restoredFrom_of_stepAt hstep'
    exact ⟨_, schema, step', hrestored, resumePlan_eq_some.2 ⟨hschema', hstep'⟩,
      (resume_same_iff _ _ _ _ _ _).2 (resumesAlike_stepID.2 halike)⟩

/-! ## The overlay of a request -/

/-- The record of a task after an escrow request has been recorded. -/
def overlay (t : Storage.TaskRecord) (e : TaskEscrowRequest) : Storage.TaskRecord :=
  (t.applyJournalRecord (checkpointFromEscrow e "escrow" e.producerNodeID)).stored

/-- What a request has to bring along, if it carries a state: a text that is empty
does not replace what was recorded, nor does a missing payload or the index of the
first step; the outputs of earlier requests stay; and nobody remembers the sender. -/
structure Overlays (e : TaskEscrowRequest) (state : PipelineExecutionState)
    (t : Storage.TaskRecord) (schema : PipelineSchema) (step : PipelineStep) : Prop where
  taskID : t.taskID = e.taskID
  service : e.service ≠ "" ∨ t.service = ""
  requesterNodeID : e.requesterNodeID ≠ "" ∨ t.requesterNodeID = ""
  replyTo : e.replyTo ≠ "" ∨ t.replyTo = ""
  payload : e.payload.isSome ∨ SameMap (t.payload.getD []) []
  step : 0 < e.stepIndex ∨ t.currentStep = 0 ∨
    ∃ step', schema.stepAt t.currentStep = some step' ∧ step'.id = step.id
  outputs : ∀ key, lookupKey (state.outputs.getD []) key = none →
    lookupKey (t.outputs.getD []) key = lookupKey (e.outputs.getD []) key
  producer : ∀ previous, senderStep e schema = some previous →
    (lookupKey (initialProducers state e.requesterNodeID) previous.id).getD "" ≠ ""

theorem mergeComparable_eq_iff (dst src : String) :
    Storage.mergeComparable "" dst src true = src ↔ src ≠ "" ∨ dst = "" := by
  unfold Storage.mergeComparable
  by_cases hsrc : src = "" <;> simp [hsrc]

/-- The producers are those of the state just when the sender is not needed. -/
theorem resumeProducers_iff (e : TaskEscrowRequest) (schema : PipelineSchema) :
    SameMap (initialProducers (resumeStart e schema) e.requesterNodeID) (resumeProducers e schema) ↔
      ∀ previous, senderStep e schema = some previous →
        (lookupKey (initialProducers (resumeStart e schema) e.requesterNodeID)
          previous.id).getD "" ≠ "" := by
  unfold resumeProducers
  rcases hsender : senderStep e schema with _ | previous
  · simp [SameMap]
  have hproducer : e.producerNodeID ≠ "" := by
    unfold senderStep at hsender
    split_ifs at hsender with hcond
    exact hcond.2
  dsimp only
  split_ifs with hunknown
  · constructor
    · intro hsame
      have hprevious := hsame previous.id
      rw [lookupKey_assignKey, if_pos rfl] at hprevious
      rw [hprevious] at hunknown
      exact absurd hunknown hproducer
    · intro hknown
      exact absurd hunknown (hknown previous rfl)
  · refine ⟨fun _ => ?_, fun _ => .refl _⟩
    rintro _ ⟨⟩
    exact hunknown

/-- A state as it is read back from the database. -/
def storedState (state : PipelineExecutionState) : PipelineExecutionState :=
  { state with
    outputs := Storage.omitEmpty state.outputs
    outputProducers := Storage.omitEmpty state.outputProducers
    selectedTargets := Storage.omitEmpty state.selectedTargets }

theorem initialProducers_stored (state : PipelineExecutionState) (nodeID : String) :
    initialProducers (storedState state) nodeID = initialProducers state nodeID := by
  have hproducers : (storedState state).outputProducers.getD [] = state.outputProducers.getD [] :=
    getD_omitEmpty _
  unfold initialProducers PipelineExecutionState.producer
  rw [hproducers]

theorem pipelineState_overlay (hstate : e.pipelineState = some state) :
    (overlay t e).pipelineState = some (storedState state) := by
  change (if e.pipelineState.isSome ∧ (true ∨ t.pipelineState.isNone) then e.pipelineState
    else t.pipelineState).map storedState = _
  simp [hstate]

theorem currentStep_overlay (t : Storage.TaskRecord) (e : TaskEscrowRequest) :
    (overlay t e).currentStep =
      if 0 < e.stepIndex ∨ t.currentStep = 0 then e.stepIndex else t.currentStep := rfl

theorem step_overlay_iff (hstep : schema.stepAt e.stepIndex = some step) :
    (∃ step', schema.stepAt (overlay t e).currentStep = some step' ∧ step'.id = step.id) ↔
      0 < e.stepIndex ∨ t.currentStep = 0 ∨
        ∃ step', schema.stepAt t.currentStep = some step' ∧ step'.id = step.id := by
  rw [currentStep_overlay, ← or_assoc]
  split_ifs with hindex
  · simp [hindex, hstep]
  · simp [hindex]

theorem outputs_overlay (hstate : e.pipelineState = some state) {key : String}
    (hkey : lookupKey (state.outputs.getD []) key = none) :
    lookupKey ((overlay t e).outputs.getD []) key = lookupKey (t.outputs.getD []) key := by
  have hbind : (checkpointFromEscrow e "escrow" e.producerNodeID).pipelineState.bind
      PipelineExecutionState.outputs = state.outputs := by
    change e.pipelineState.bind PipelineExecutionState.outputs = _
    rw [hstate, Option.bind_some]
  cases houtputs : state.outputs with
  | none =>
    rw [houtputs] at hbind
    simp only [overlay, Storage.TaskRecord.stored, Storage.TaskRecord.applyJournalRecord, hbind,
      getD_omitEmpty]
    rfl
  | some cloned =>
    rw [houtputs] at hkey hbind
    simp only [overlay, Storage.TaskRecord.stored, Storage.TaskRecord.applyJournalRecord, hbind,
      getD_omitEmpty]
    exact lookupKey_mergeMap_of_none _ _ _ hkey

theorem payload_overlay_iff (t : Storage.TaskRecord) (e : TaskEscrowRequest) :
    SameMap ((overlay t e).payload.getD []) (e.payload.getD []) ↔
      e.payload.isSome ∨ SameMap (t.payload.getD []) [] := by
  change SameMap ((Storage.omitEmpty (if e.payload.isSome ∧ (true ∨ t.payload.isNone) then e.payload
    else t.payload)).getD []) _ ↔ _
  rw [getD_omitEmpty]
  cases e.payload with
  | none => simp
  | some payload => simp [SameMap]

theorem holds_overlay_iff (hstate : e.pipelineState = some state)
    (hplan : resumePlan s e = some (schema, step)) :
    Holds c s e schema step (overlay t e) ↔ Overlays e state t schema step := by
  obtain ⟨hschema, hstep⟩ := resumePlan_eq_some.1 hplan
  set restored := restoredEntry (overlay t e) "" with hrestored
  have hstart : resumeStart restored schema = storedState state := by
    change (overlay t e).pipelineState.getD _ = _
    rw [pipelineState_overlay hstate]
    rfl
  have hstart' : resumeStart e schema = state := by
    rw [resumeStart, hstate, Option.getD_some]
  have hproducers : resumeProducers restored schema =
      initialProducers state (overlay t e).requesterNodeID := by
    unfold resumeProducers senderStep
    rw [hstart, initialProducers_stored, if_neg (by simp [hrestored, restoredEntry])]
    rfl
  have hservice := mergeComparable_eq_iff t.service e.service
  have hrequester := mergeComparable_eq_iff t.requesterNodeID e.requesterNodeID
  have hreply := mergeComparable_eq_iff t.replyTo e.replyTo
  have hsender := resumeProducers_iff e schema
  rw [hstart'] at hsender
  constructor
  · rintro ⟨-, step', hstep', h⟩
    have hnode : (overlay t e).requesterNodeID = e.requesterNodeID := h.requesterNodeID
    refine ⟨h.taskID, hservice.1 h.service, hrequester.1 hnode, hreply.1 h.replyTo,
      (payload_overlay_iff t e).1 h.payload, (step_overlay_iff hstep).1 ⟨step', hstep', h.stepID⟩,
      fun key hkey => ?_, hsender.1 ?_⟩
    · have houtputs := h.outputs key
      rw [hstart, hstart', storedState, getD_omitEmpty, hkey, Option.none_or, Option.none_or]
        at houtputs
      exact (outputs_overlay hstate hkey).symm.trans houtputs
    · have hsame := h.producers
      rwa [hproducers, hnode] at hsame
  · intro h
    obtain ⟨step', hstep', hstepID⟩ := (step_overlay_iff hstep).2 h.step
    have hnode : (overlay t e).requesterNodeID = e.requesterNodeID :=
      hrequester.2 h.requesterNodeID
    have hname : (overlay t e).service = e.service := hservice.2 h.service
    refine ⟨?_, step', hstep', h.taskID, hname, hnode, hreply.2 h.replyTo,
      (payload_overlay_iff t e).2 h.payload, hstepID, ?_, ?_, ?_, ?_, ?_, fun key => ?_, ?_,
      fun key _ => ?_⟩
    · rw [hname, pipelineState_overlay hstate]
      rwa [hstate] at hschema
    iterate 5
      · rw [hstart, hstart']
        rfl
    · rw [hstart, hstart', storedState, getD_omitEmpty]
      cases hkey : lookupKey (state.outputs.getD []) key with
      | some value => rfl
      | none => exact (outputs_overlay hstate hkey).trans (h.outputs key hkey)
    · rw [hproducers, hnode]
      exact hsender.2 h.producer
    · rw [hstart, hstart', storedState, getD_omitEmpty]

/-! ## Into escrow and into the journal -/

/-- A request is recorded, unless it is taken for a duplicate. -/
def isRecorded (c : Node) (s : Engine) (e : TaskEscrowRequest) : Bool :=
  c.taskJournal ∧ !((s.escrow.get e.taskID).any fun existing => existing.stepIndex = e.stepIndex)

/-- The request that `PutTaskInEscrow` stores. -/
def completeEscrow (c : Node) (req : TaskEscrowRequest) (now : ℤ) : TaskEscrowRequest :=
  { req with
    timestamp := if req.timestamp = 0 then now else req.timestamp
    requesterNodeID := if req.requesterNodeID = "" then c.nodeID else req.requesterNodeID }

/-- The record a request finds. -/
def recordBefore (s : Engine) (id : String) : Storage.TaskRecord :=
  (s.db.tasksActive.get id).getD (Storage.newTaskRecord id 0)

/-- A request that survives a restart: when it is recorded, it overlays what was
recorded before; when it is not, the record holds it already. -/
def SurvivesRestart (c : Node) (s : Engine) (e : TaskEscrowRequest) : Prop :=
  ∀ schema step, resumePlan s e = some (schema, step) →
    if isRecorded c s e then
      match e.pipelineState with
      | some state => Overlays e state (recordBefore s e.taskID) schema step
      | none => Holds c s e schema step (overlay (recordBefore s e.taskID) e)
    else ∃ record, s.db.tasksActive.get e.taskID = some record ∧ Holds c s e schema step record

/-- What `PutTaskInEscrow` leaves behind. -/
structure EscrowPut (c : Node) (s : Engine) (e : TaskEscrowRequest) (s' : Engine) : Prop where
  entry : s'.escrow.get e.taskID = some e
  pipelines : s'.pipelines = s.pipelines
  recorded : isRecorded c s e = true → ∃ created updated,
    s'.db.tasksActive.get e.taskID = some
      { overlay (recordBefore s e.taskID) e with createdAt := created, updatedAt := updated }
  kept : isRecorded c s e = false → s'.db.tasksActive.get e.taskID = s.db.tasksActive.get e.taskID

theorem recordCheckpoint_active {record : Storage.TaskJournalRecord}
    (hjournal : c.taskJournal = true)
    (hstatus : Storage.isTerminalTaskStatus record.status = false)
    (hok : (s.recordCheckpoint c w record).1 = none) :
    ∃ created updated, (s.recordCheckpoint c w record).2.db.tasksActive.get record.taskID =
      some { ((recordBefore s record.taskID).applyJournalRecord record).stored with
        createdAt := created, updatedAt := updated } := by
  unfold Engine.recordCheckpoint at hok ⊢
  rw [if_neg (by simp [hjournal])] at hok ⊢
  rcases hvalid : Storage.validateTaskID record.taskID with _ | err
  swap
  · simp [hvalid] at hok
  simp only [hvalid] at hok ⊢
  rcases hfault : w.journal s.answers with _ | err
  swap
  · simp [hfault] at hok
  simp only [hfault] at hok ⊢
  set completed := Storage.completeCheckpoint record (w.clock s.answers) with hcompleted
  rw [Storage.appendTaskCheckpointTx_eq] at hok ⊢
  split_ifs at hok ⊢
  obtain ⟨sequence, hsequence⟩ := Storage.sequenced_eq completed s.db
  rw [hsequence]
  change ∃ created updated, (s.db.checkpoint { completed with
    sequence := sequence }).tasksActive.get record.taskID = _
  have hactive : Storage.isTerminalTaskStatus
      { completed with sequence := sequence }.status = false := hstatus
  rw [Storage.Database.checkpoint, if_neg (by simp [hactive]), Storage.checkpointed,
    if_neg (by simp [hactive])]
  refine ⟨((s.db.tasksActive.get record.taskID).map Storage.TaskRecord.createdAt).getD
    completed.timestamp, completed.timestamp, ?_⟩
  refine (Bucket.get_put _ _ _ _).trans ((if_pos rfl).trans ?_)
  unfold recordBefore
  change some ((((s.db.tasksActive.get record.taskID).getD _).applyJournalRecord _).stored) = _
  cases s.db.tasksActive.get record.taskID with
  | none | some _ => rfl

theorem storeEscrow_put (e : TaskEscrowRequest) :
    (storeEscrow c e).Ends (handler c w) s fun o s' => o = some none → EscrowPut c s e s' := by
  have hrecord : Storage.isTerminalTaskStatus "escrow" = false := by decide
  have hrest : ∀ {s₁ : Engine}, s₁.pipelines = s.pipelines →
      (isRecorded c s e = true → ∃ created updated, s₁.db.tasksActive.get e.taskID = some
        { overlay (recordBefore s e.taskID) e with createdAt := created, updatedAt := updated }) →
      (isRecorded c s e = false → s₁.db.tasksActive.get e.taskID = s.db.tasksActive.get e.taskID) →
      (do
        perform (.putEscrow e)
        setTaskStatus (escrowStatus e.taskID e.service e.error e.producerNodeID)
        return none : Call Action (Option GoError)).Ends (handler c w) s₁ fun o s' =>
          o = some none → EscrowPut c s e s' := by
    intro s₁ hpipelines hrecorded hkept
    refine ends_perform_bind.2 (setTaskStatus_bind.2 fun _ => ?_)
    exact ⟨Table.get_insert_self _ _, hpipelines, hrecorded, hkept⟩
  refine read_ends.2 (ends_bind.2 ?_)
  split
  · rename_i hpersist
    have hrecorded : isRecorded c s e = true := by simpa [isRecorded] using hpersist
    refine ends_perform.2 (then_some.2 ?_)
    split
    · intro hok
      cases hok
    rename_i hok
    refine hrest ?_ (fun _ => ?_) fun hnot => absurd hrecorded (by simp [hnot])
    · obtain ⟨db, answers, hframe⟩ := recordCheckpoint_frame c w s
        { checkpointFromEscrow e "escrow" e.producerNodeID with timestamp := e.timestamp }
      simp only [handler, exec, hframe]
    · exact recordCheckpoint_active hpersist.1 hrecord hok
  · rename_i hpersist
    have hkept : isRecorded c s e = false := by
      simpa [isRecorded] using hpersist
    refine ends_pure.2 (then_some.2 ?_)
    exact hrest rfl (fun hrecorded => absurd hrecorded (by simp [hkept])) fun _ => rfl

theorem putTaskInEscrow_put (req : TaskEscrowRequest) :
    (putTaskInEscrow c req).Ends (handler c w) s fun o s' =>
      o = some none → EscrowPut c s (completeEscrow c req (w.clock s.answers)) s' := by
  unfold putTaskInEscrow
  split
  · intro hok
    cases hok
  · refine ends_perform_bind.2 ((storeEscrow_put _).mono fun o s' h hok => ?_)
    obtain ⟨hentry, hpipelines, hrecorded, hkept⟩ := h hok
    exact ⟨hentry, hpipelines, hrecorded, hkept⟩

theorem holds_congr {s' : Engine} (hpipelines : s'.pipelines = s.pipelines) :
    Holds c s' e schema step record ↔ Holds c s e schema step record := by
  unfold Holds sentSchema
  rw [hpipelines]

/-- The active record restores alike just when it holds the entry. -/
theorem restoredAlike_iff (hentry : s.escrow.get e.taskID = some e) :
    RestoredAlike c s e.taskID ↔ ∀ schema step, resumePlan s e = some (schema, step) →
      ∃ record, s.db.tasksActive.get e.taskID = some record ∧ Holds c s e schema step record := by
  constructor
  · intro h schema step hplan
    obtain ⟨record, restored, schema', step', hrecord, hrestored⟩ := h e schema step hentry hplan
    exact ⟨record, hrecord, (restored_alike_iff hplan).1 ⟨restored, schema', step', hrestored⟩⟩
  · intro h entry schema step hentry' hplan
    cases hentry.symm.trans hentry'
    obtain ⟨record, hrecord, hholds⟩ := h schema step hplan
    obtain ⟨restored, schema', step', hrestored⟩ := (restored_alike_iff hplan).2 hholds
    exact ⟨record, restored, schema', step', hrecord, hrestored⟩

/-- A request for the second step of a pipeline, with what the first step gave. -/
def secondStep (result : String) : TaskEscrowRequest where
  taskID := "t"
  service := "p"
  requesterNodeID := "a"
  stepID := "second"
  stepIndex := 1
  producerNodeID := "b"
  outputs := some [("first", [("n", .string result)])]
  pipelineState := some
    { pipelineID := "p", pipelineVersion := 1, currentStep := 1
      outputs := some [("first", [("n", .string result)])]
      outputProducers := some [(initialStep, "a"), ("first", "b")]
      snapshot := some
        { id := "p", version := 1
          steps := [{ id := "first", service := "f" }, { id := "second", service := "g" }] } }

/-- Node `a` puts such a task into escrow. -/
def putSecondStep (result : String) (s : Engine) : Option (Option GoError) × Engine :=
  (putTaskInEscrow (.named "a") (secondStep result)).prog.run (handler (.named "a") .quiet) s

/-- What the first step gave, according to a request. -/
def firstResult (req : TaskRequest) : Option String := do
  let state ← req.pipelineState
  match lookupKey (← lookupKey (state.outputs.getD []) "first") "n" with
  | some (.string result) => some result
  | _ => none

theorem RequestsAlike.firstResult_eq {a b : TaskRequest} (h : RequestsAlike a b) :
    firstResult a = firstResult b := by
  have hstates := h.pipelineState
  unfold firstResult
  generalize a.pipelineState = stateA at hstates ⊢
  generalize b.pipelineState = stateB at hstates ⊢
  cases hstates with
  | none => rfl
  | some hstates => simp [hstates.outputs "first"]

/-- What the first step gave, according to the request an entry resumes with. -/
def resumedResult (s : Engine) (e : TaskEscrowRequest) : Option String := do
  let (schema, step) ← resumePlan s e
  firstResult (resumeRequest (.named "a") e schema e.stepIndex step "")

theorem putSecondStep_ok {result : String}
    (h : (putSecondStep result s).1.map Option.isNone = some true) :
    (putSecondStep result s).1 = some none := by
  obtain ⟨answer, hanswer, hnone⟩ := Option.map_eq_some_iff.1 h
  rw [hanswer, Option.isNone_iff_eq_none.1 hnone]

end Proxyma.Compute
