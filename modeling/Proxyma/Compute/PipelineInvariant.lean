import Proxyma.Compute.Cluster

/-!
# What is known when a step runs

A pipeline task is handed from node to node, may wait in escrow, and may change to
a newer definition on the way.  `Progressed` is what stays true of its execution
state: the definition it carries is well formed, and each step before the current
one has left outputs and the node that produced them.

Every change the engine makes to a state keeps this, so it is a custody of all nodes
of a cluster.  When a handler is run, the outputs of all earlier steps are there and
the connections into the step come from them.
-/

namespace Proxyma.Compute

open Keyed Atomic Atomic.Call

/-- A step has left its outputs and their producer. -/
def Finished (state : PipelineExecutionState) (stepID : String) : Prop :=
  (lookupKey (state.outputs.getD []) stepID).isSome ∧
    (lookupKey (state.outputProducers.getD []) stepID).isSome

/-- An execution state that carries its definition and the outputs of the steps
before the current one. -/
structure Progressed (state : PipelineExecutionState) (schema : PipelineSchema) : Prop where
  snapshot : state.snapshot = some schema
  wellFormed : schema.WellFormed
  nonneg : 0 ≤ state.currentStep
  inBounds : state.currentStep ≤ schema.steps.length
  finished : ∀ (i : ℕ) step, schema.steps[i]? = some step → (i : ℤ) < state.currentStep →
    Finished state step.id

/-- The custody of execution states that have progressed properly. -/
def progress : Custody where
  owns _ _ := True
  flows _ state := ∃ schema, Progressed state schema
  entry := Carries (fun _ _ => True) fun _ state => ∃ schema, Progressed state schema
  schema := PipelineSchema.WellFormed

/-! ## Changes of a state -/

variable {step : PipelineStep} {key : String}

section Changes

variable {state state' : PipelineExecutionState} {schema : PipelineSchema}

theorem Progressed.mono (h : Progressed state schema) (hsnapshot : state'.snapshot = state.snapshot)
    (hstep : state'.currentStep = state.currentStep)
    (hfinished : ∀ stepID, Finished state stepID → Finished state' stepID) :
    Progressed state' schema := by
  refine ⟨hsnapshot.trans h.snapshot, h.wellFormed, ?_, ?_, fun i step hget hlt => ?_⟩
  · exact hstep ▸ h.nonneg
  · exact hstep ▸ h.inBounds
  · exact hfinished _ (h.finished i step hget (hstep ▸ hlt))

theorem isSome_lookupKey_assignKey {V : Type} {m : List (String × V)} (key' : String) (value : V)
    (h : (lookupKey m key).isSome) : (lookupKey (assignKey m key' value) key).isSome := by
  rw [lookupKey_assignKey]
  split_ifs
  · rfl
  · exact h

theorem finished_setProducer (stepID nodeID : String) (h : Finished state key) :
    Finished (state.setProducer stepID nodeID) key :=
  ⟨h.1, isSome_lookupKey_assignKey stepID nodeID h.2⟩

theorem finished_ensureInitialProducer (nodeID : String) (h : Finished state key) :
    Finished (state.ensureInitialProducer nodeID) key := by
  unfold PipelineExecutionState.ensureInitialProducer
  dsimp only
  split_ifs
  · exact finished_setProducer _ _ h
  · exact h

theorem Progressed.ensureInitialProducer (h : Progressed state schema) (nodeID : String) :
    Progressed (state.ensureInitialProducer nodeID) schema :=
  h.mono (snapshot_ensureInitialProducer state nodeID)
    (currentStep_ensureInitialProducer state nodeID) fun _ => finished_ensureInitialProducer nodeID

theorem Progressed.received (h : Progressed state schema) :
    Progressed (Compute.received state) schema := by
  refine h.mono rfl rfl fun _ hfinished => ?_
  simpa [Finished, Compute.received] using hfinished

/-- A migration keeps the identifiers of the completed steps. -/
theorem Progressed.adopt {target : PipelineSchema} (h : Progressed state schema) (c : Node)
    (htarget : target.WellFormed)
    (hvalid : validatePrefixMigration (completedSteps state schema) state.outputs schema target =
      none) : Progressed (adopt c state target) target := by
  obtain ⟨hlength, htake⟩ := prefixKept_of_migration hvalid
  have hinBounds := h.inBounds
  have hnonneg := h.nonneg
  have hcount : (completedSteps state schema).length = state.currentStep.toNat := by
    simp only [completedSteps, List.length_map, List.length_take]
    omega
  refine ⟨rfl, htarget, hnonneg, ?_, fun i step hget hlt => ?_⟩
  · simp only [Compute.adopt]
    omega
  have hi : i < state.currentStep.toNat := by
    simp only [Compute.adopt] at hlt
    omega
  obtain ⟨old, hold⟩ : ∃ old, schema.steps[i]? = some old :=
    ⟨_, List.getElem?_eq_getElem (by omega)⟩
  -- both definitions have the same identifier at this place
  have hsame : target.stepIDs[i]? = schema.stepIDs[i]? := by
    rw [← List.getElem?_take_of_lt (hcount ▸ hi : i < (completedSteps state schema).length), htake]
    simp [completedSteps, PipelineSchema.stepIDs, List.getElem?_take_of_lt hi]
  have hid : step.id = old.id := by
    simpa [PipelineSchema.stepIDs, hget, hold] using hsame
  rw [hid]
  exact h.finished i old hold (by omega)

theorem Progressed.recordStep (h : Progressed state schema) (c : Node)
    (hstep : schema.stepAt state.currentStep = some step) (outputs : JsonMap) :
    Progressed (recordStep c state step outputs) schema := by
  have hnonneg := h.nonneg
  rw [PipelineSchema.stepAt, if_pos hnonneg] at hstep
  have hlt := (List.getElem?_eq_some_iff.1 hstep).1
  refine ⟨h.snapshot, h.wellFormed, ?_, ?_, fun i other hget hi => ?_⟩
  · simp only [Compute.recordStep]
    omega
  · simp only [Compute.recordStep]
    omega
  simp only [Compute.recordStep] at hi
  rcases (show (i : ℤ) < state.currentStep ∨ i = state.currentStep.toNat by omega) with hi | rfl
  · obtain ⟨houtputs, hproducers⟩ := h.finished i other hget hi
    exact ⟨isSome_lookupKey_assignKey _ _ houtputs, isSome_lookupKey_assignKey _ _ hproducers⟩
  · cases hstep.symm.trans hget
    constructor
    · simp [Compute.recordStep, lookupKey_assignKey]
    · simp [Compute.recordStep, PipelineExecutionState.setProducer, lookupKey_assignKey]

theorem Progressed.resumeState {task : TaskEscrowRequest} (h : Progressed state schema) (c : Node)
    (htask : task.pipelineState = some state) (S : PipelineSchema) (stepIndex : ℤ)
    (step : PipelineStep) (target : String) :
    Progressed (resumeState c task S stepIndex step target) schema := by
  refine resumeState_induction (P := fun st => Progressed st schema) htask ?_ ?_ ?_ ?_
  · refine h.mono ?_ rfl fun _ hfinished => ⟨?_, hfinished.2⟩
    · simp [h.snapshot]
    · exact isSome_lookupKey_mergeMap _ _ _ hfinished.1
  · exact fun st hst => hst.ensureInitialProducer task.requesterNodeID
  · exact fun st previous _ hst => hst.mono rfl rfl fun _ => finished_setProducer _ _
  · exact fun st hst => hst.mono rfl rfl fun _ hfinished => hfinished

end Changes

/-! ## The custody -/

theorem wellFormed_singleStep (service : String) : (singleStep service).WellFormed where
  steps_ne_nil := by simp [singleStep]
  nodup := by simp [singleStep, PipelineSchema.stepIDs]
  forward := by simp [singleStep]

theorem progress_lawful (c : Node) : progress.Lawful c True where
  carried := by
    rintro id state S ⟨schema, h⟩ hsnapshot
    exact Option.some.inj (h.snapshot.symm.trans hsnapshot) ▸ h.wellFormed
  single := wellFormed_singleStep
  anonymous _ _ := trivial
  coordinated _ _ := trivial
  initial := by
    intro id requester S _ hS
    refine ⟨S, rfl, hS, le_rfl, by simp [initialState], fun i step _ hi => ?_⟩
    simp only [initialState] at hi
    omega
  resolved := by
    rintro id state S ⟨schema, h⟩ hnone
    exact absurd (hnone.symm.trans h.snapshot) (by simp)
  adopted := by
    rintro id state current target ⟨schema, h⟩ hcurrent htarget - - hvalid
    obtain rfl : schema = current := Option.some.inj (h.snapshot.symm.trans hcurrent)
    exact ⟨target, h.adopt c htarget hvalid⟩
  retargeted := by
    rintro id state state' ⟨schema, h⟩ hretargeted
    refine ⟨schema, h.mono ?_ ?_ fun _ hfinished => ?_⟩ <;> rw [hretargeted]
    exact hfinished
  produced := by
    rintro id state requester - ⟨schema, h⟩
    exact ⟨schema, h.ensureInitialProducer requester⟩
  allocated := by
    rintro id state ⟨schema, h⟩
    exact ⟨schema, h.mono rfl rfl fun _ hfinished => hfinished⟩
  recorded := by
    rintro id state S step outputs ⟨schema, h⟩ hsnapshot hstep
    obtain rfl : schema = S := Option.some.inj (h.snapshot.symm.trans hsnapshot)
    exact ⟨schema, h.recordStep c hstep outputs⟩
  received := by
    rintro id state ⟨schema, h⟩
    exact ⟨schema, h.received⟩
  inRange _ := .inl trivial
  escrowed h _ := h
  waiting h := h
  resumed := by
    rintro task S stepIndex step target ⟨-, state, hstate, schema, h⟩ -
    exact ⟨schema, h.resumeState c hstate S stepIndex step target⟩

theorem progress_agrees (d : Deployment) (policy : Policy) :
    Cluster.Agrees d policy fun _ => progress where
  started _ _ := trivial
  submitted h := h
  escalated h := h
  admitted _ hvalid := wellFormed_of_validate hvalid
  restored _ hs htask hstatus := hs.carries htask hstatus

/-! ## Running a step -/

/-- The inputs of a step are there: every earlier step has left its outputs, and
the connections into the step come from earlier steps. -/
structure InputsReady (schema : PipelineSchema) (state : PipelineExecutionState)
    (step : PipelineStep) : Prop where
  current : schema.stepAt state.currentStep = some step
  finished : ∀ (i : ℕ) earlier, schema.steps[i]? = some earlier → (i : ℤ) < state.currentStep →
    Finished state earlier.id
  connected : ∀ conn ∈ schema.connections, conn.toStep = step.id → conn.fromStep ≠ initialStep →
    ∃ (i : ℕ) (earlier : PipelineStep), schema.steps[i]? = some earlier ∧ (i : ℤ) < state.currentStep ∧
      earlier.id = conn.fromStep

theorem Progressed.inputsReady {state : PipelineExecutionState} {schema : PipelineSchema}
    (h : Progressed state schema) (hstep : schema.stepAt state.currentStep = some step) :
    InputsReady schema state step := by
  have hnonneg := h.nonneg
  refine ⟨hstep, h.finished, fun conn hconn hto hfrom => ?_⟩
  obtain ⟨i, j, hi, hj, hij⟩ := h.wellFormed.forward conn hconn hfrom
  obtain ⟨earlier, hearlier, hid⟩ := PipelineSchema.position_eq_some hi
  obtain ⟨later, hlater, hlaterID⟩ := PipelineSchema.position_eq_some hj
  -- identifiers are distinct, so the target of the connection is the current step
  have hindex : j = state.currentStep.toNat := by
    rw [PipelineSchema.stepAt, if_pos hnonneg] at hstep
    refine (List.getElem?_inj ?_ h.wellFormed.nodup).1 ?_
    · simpa [PipelineSchema.stepIDs] using (List.getElem?_eq_some_iff.1 hlater).1
    · simp [PipelineSchema.stepIDs, hlater, hstep, hlaterID, hto]
  exact ⟨i, earlier, hearlier, by omega, hid⟩

/-- Whatever the nodes of a cluster do, when a node runs the handler of a step the
inputs of the step are there. -/
theorem inputs_ready_when_run (d : Deployment) (policy : Policy)
    (services : String → Bucket String RegisteredService) (cl : Cluster)
    (hrun : Relation.ReflTransGen (Cluster.Step d policy) (Cluster.initial services) cl)
    (i taskID : String) (step : PipelineStep) (schema : PipelineSchema)
    (state : PipelineExecutionState)
    (hexecuted : .executed taskID step schema state ∈ (cl i).state.trace) :
    InputsReady schema state step := by
  have hsound : Cluster.Sound d (fun _ => progress) (fun i => progress_lawful (d.node i)) cl :=
    Cluster.sound_of_run (progress_agrees d policy) hrun
  obtain ⟨⟨schema', h⟩, hsnapshot, hstep⟩ := (hsound i).holds.trace _ hexecuted
  cases h.snapshot.symm.trans hsnapshot
  exact h.inputsReady hstep

/-- The steps that an engine has run. -/
def stepsRun (trace : List Event) : List (String × PipelineStep × PipelineSchema) :=
  trace.filterMap fun
    | .executed taskID step schema _ => some (taskID, step, schema)
    | _ => none

theorem exists_of_mem_stepsRun {trace : List Event} {taskID : String} {schema : PipelineSchema}
    (h : (taskID, step, schema) ∈ stepsRun trace) :
    ∃ state, .executed taskID step schema state ∈ trace := by
  obtain ⟨event, hevent, hsome⟩ := List.mem_filterMap.1 h
  cases event with
  | executed _ _ _ state =>
    obtain ⟨rfl, rfl, rfl⟩ : _ = taskID ∧ _ = step ∧ _ = schema := by simpa using hsome
    exact ⟨state, hevent⟩
  | _ => exact absurd hsome (by simp)

/-- A pipeline of two steps, the second of which reads an output of the first. -/
def linkedSteps : PipelineSchema where
  id := "p"
  version := 1
  steps := [{ id := "first", service := "f" }, { id := "second", service := "g" }]
  connections := [⟨"first", "out", "second", "in"⟩]

/-- One node registers the pipeline, starts a task and works on it twice. -/
def linkedRun : Cluster :=
  let d := Deployment.quiet
  let services := (Bucket.empty.put "f" (⟨fun _ => none⟩ : RegisteredService)).put "g"
    ⟨fun _ => none⟩
  let cl := Cluster.initial fun _ => services
  let cl := cl.after d "a" (perform (.applyPipelineRevision linkedSteps))
  let cl := cl.after d "a"
    (localServiceRun (d.node "a") { taskID := "t", service := "p", requesterNodeID := "a" } "a")
  let cl := cl.after d "a" (worker (d.node "a"))
  cl.after d "a" (worker (d.node "a"))

theorem inputs_ready_when_run_second : ∃ services cl state,
    Relation.ReflTransGen (Cluster.Step .quiet (.startedBy "a")) (Cluster.initial services) cl ∧
      .executed "t" { id := "second", service := "g" } linkedSteps state ∈
        (cl "a").state.trace ∧
      InputsReady linkedSteps state { id := "second", service := "g" } := by
  have hrun : Relation.ReflTransGen (Cluster.Step .quiet (.startedBy "a"))
      (Cluster.initial fun _ => (Bucket.empty.put "f" (⟨fun _ => none⟩ : RegisteredService)).put "g"
        ⟨fun _ => none⟩) linkedRun := by
    refine Cluster.run_after (Cluster.run_after (Cluster.run_after (Cluster.run_after .refl ?_) ?_)
      ?_) ?_
    · exact .act rfl trivial
    · exact .run (by decide) rfl rfl rfl
    · exact .work
    · exact .work
  have hran : ("t", { id := "second", service := "g" }, linkedSteps) ∈
      stepsRun (linkedRun "a").state.trace := by
    decide +kernel
  obtain ⟨state, hexecuted⟩ := exists_of_mem_stepsRun hran
  exact ⟨_, _, state, hrun, hexecuted,
    inputs_ready_when_run .quiet (.startedBy "a") _ _ hrun "a" "t" _ _ state hexecuted⟩

end Proxyma.Compute
