import Proxyma.Compute.Cluster
import Proxyma.Compute.Preparation

/-!
# What can crash a worker

The index of the current step comes with the request.  Processing uses it as an
index into the steps of a definition, after a check each time, and as the capacity
of a slice when the task is about to migrate.  That one use is not checked, and
there is no other.

Past the binding, the index is that of a step of the definition the task carries.
`bounded` is the custody of this fact; no call under it panics.
-/

namespace Proxyma.Compute

open Keyed Atomic Atomic.Call

variable {t : TaskRequest} {current schema : PipelineSchema}
  {incoming state : PipelineExecutionState}

/-- A definition whose steps fit into a slice. -/
def FitsSlice (schema : PipelineSchema) : Prop := schema.steps.length ≤ maxStringSlice

/-- The index of a state is in the bounds of the definition it carries. -/
structure InBounds (state : PipelineExecutionState) (schema : PipelineSchema) : Prop where
  snapshot : state.snapshot = some schema
  fits : FitsSlice schema
  nonneg : 0 ≤ state.currentStep
  le : state.currentStep ≤ schema.steps.length

/-- The custody of states whose index is in bounds. -/
def bounded : Custody where
  owns _ _ := True
  flows _ state := ∃ schema, InBounds state schema
  entry := Carries (fun _ _ => True) fun _ state => ∃ schema, InBounds state schema
  schema := FitsSlice

theorem fits_singleStep (service : String) : FitsSlice (singleStep service) := by
  simp [FitsSlice, singleStep, maxStringSlice]

theorem bounded_lawful (c : Node) : bounded.Lawful c False where
  carried := by
    rintro id state S ⟨schema, h⟩ hS
    exact Option.some.inj (h.snapshot.symm.trans hS) ▸ h.fits
  single := fits_singleStep
  anonymous _ _ := trivial
  coordinated _ _ := trivial
  initial := by
    intro id requester S _ hS
    exact ⟨S, rfl, hS, le_rfl, by simp [initialState]⟩
  resolved := by
    rintro id state S ⟨schema, h⟩ hnone
    exact absurd (hnone.symm.trans h.snapshot) (by simp)
  adopted := by
    rintro id state current target ⟨schema, hsnapshot, -, hlow, hhigh⟩ hcurrent htarget - - hvalid
    obtain rfl : schema = current := Option.some.inj (hsnapshot.symm.trans hcurrent)
    obtain ⟨hlength, -⟩ := prefixKept_of_migration hvalid
    refine ⟨target, rfl, htarget, hlow, ?_⟩
    simp only [completedSteps, List.length_map, List.length_take] at hlength
    simp only [adopt]
    omega
  retargeted := by
    rintro id state state' ⟨schema, h⟩ hretargeted
    rw [hretargeted]
    exact ⟨schema, h.snapshot, h.fits, h.nonneg, h.le⟩
  produced := by
    rintro id state requester - ⟨schema, h⟩
    obtain ⟨producers, heq⟩ := ensureInitialProducer_eq state requester
    rw [heq]
    exact ⟨schema, h.snapshot, h.fits, h.nonneg, h.le⟩
  allocated := by
    rintro id state ⟨schema, h⟩
    exact ⟨schema, h.snapshot, h.fits, h.nonneg, h.le⟩
  recorded := by
    rintro id state S step outputs ⟨schema, hsnapshot, hfits, hlow, -⟩ hS hstep
    obtain rfl : schema = S := Option.some.inj (hsnapshot.symm.trans hS)
    rw [PipelineSchema.stepAt, if_pos hlow] at hstep
    have hlt := (List.getElem?_eq_some_iff.1 hstep).1
    refine ⟨schema, hsnapshot, hfits, ?_, ?_⟩ <;> simp only [recordStep] <;> omega
  received := by
    rintro id state ⟨schema, h⟩
    exact ⟨schema, h.snapshot, h.fits, h.nonneg, h.le⟩
  inRange := by
    rintro id state ⟨schema, hsnapshot, hfits, hlow, hhigh⟩
    refine .inr ⟨hlow, hhigh.trans hfits, fun S hS => ?_⟩
    exact Option.some.inj (hsnapshot.symm.trans hS) ▸ hhigh
  escrowed h _ := h
  waiting h := h
  resumed := by
    rintro task S stepIndex step target ⟨-, state, hstate, schema, h⟩ -
    have hkept : ∀ st st' : PipelineExecutionState, st'.snapshot = st.snapshot →
        st'.currentStep = st.currentStep → InBounds st schema → InBounds st' schema := by
      intro st st' hsnapshot hstep hst
      exact ⟨hsnapshot.trans hst.snapshot, hst.fits, hstep ▸ hst.nonneg, hstep ▸ hst.le⟩
    refine ⟨schema, resumeState_induction (P := fun st => InBounds st schema) hstate ?_ ?_ ?_ ?_⟩
    · exact ⟨by simp [h.snapshot], h.fits, h.nonneg, h.le⟩
    · exact fun st => hkept st _ (snapshot_ensureInitialProducer st _)
        (currentStep_ensureInitialProducer st _)
    · exact fun st previous _ => hkept st _ rfl rfl
    · exact fun st => hkept st _ rfl rfl

/-! ## The registry -/

/-- The definitions of an engine fit into slices. -/
structure RegistryFits (s : Engine) : Prop where
  pipelines : ∀ id S, s.pipelines.get id = some S → FitsSlice S
  revisions : ∀ id S, s.pipelineRevisions.get id = some S → FitsSlice S

variable {c : Node} {w : World} {s : Engine}

theorem RegistryFits.of_same {s' : Engine} (h : RegistryFits s)
    (hpipelines : s'.pipelines = s.pipelines)
    (hrevisions : s'.pipelineRevisions = s.pipelineRevisions) : RegistryFits s' :=
  ⟨hpipelines ▸ h.pipelines, hrevisions ▸ h.revisions⟩

theorem RegistryFits.applyPipelineRevision (h : RegistryFits s) {S : PipelineSchema}
    (hS : validatePipelineSchema S = none → FitsSlice S) :
    RegistryFits (s.applyPipelineRevision c S).2 := by
  obtain ⟨_, _, heq, hpipelines, hrevisions⟩ :=
    applyPipelineRevision_frame c hS h.pipelines h.revisions
  rw [heq]
  exact ⟨hpipelines, hrevisions⟩

/-- A definition that is applied fits. -/
def boundedRegistry (c : Node) (w : World) : Discipline c w where
  toCustody := bounded
  inv := RegistryFits
  panics := False
  lawful := bounded_lawful c
  registered h hget := h.pipelines _ _ hget
  revision h hget := h.revisions _ _ hget
  kept e s he h := by
    have hframe := exec_frame c w e s
    cases e with
    | applyPipelineRevision S => exact h.applyPipelineRevision he
    | enqueue req =>
      simp only [exec, Engine.enqueue]
      split
      · split <;> exact h
      · split
        · exact h.of_same rfl rfl
        · exact h
    | dequeue | putEscrow | takeEscrow | close => exact h.of_same rfl rfl
    | fetchServiceBid | submitToPeer | sendTaskEscrow => exact h.of_same rfl rfl
    | sendTaskResponse | execute => exact h.of_same rfl rfl
    | _ =>
      obtain ⟨_, _, _, heq⟩ := hframe rfl
      rw [heq]
      exact h.of_same rfl rfl

/-! ## Processing -/

/-- The definition that processing binds a request to. -/
def localSchema (s : Engine) (t : TaskRequest) : PipelineSchema :=
  (sentSchema s t.service t.pipelineState).getD (singleStep t.service)

/-- The request is about to migrate with an index that is no capacity. -/
def PanicsAtBind (c : Node) (s : Engine) (t : TaskRequest) : Prop :=
  BindPanics c s t (localSchema s t)

/-- All definitions that processing a request can meet fit into slices. -/
structure FitsMemory (s : Engine) (t : TaskRequest) : Prop where
  registry : RegistryFits s
  carried : ∀ state S, t.pipelineState = some state → state.snapshot = some S → FitsSlice S

theorem sendPipelineError_returns (t : TaskRequest) (err : GoError) :
    (sendPipelineError c t err).Ends (handler c w) s fun o _ => o.isSome := by
  unfold sendPipelineError setTaskStatus
  split_ifs <;> rfl

theorem FitsMemory.localSchema (h : FitsMemory s t) : FitsSlice (localSchema s t) := by
  unfold Compute.localSchema sentSchema
  cases hregistered : s.pipelines.get t.service with
  | some S => exact h.registry.pipelines _ S hregistered
  | none =>
    rcases hcarried : t.pipelineState.bind PipelineExecutionState.snapshot with _ | S
    · exact fits_singleStep _
    obtain ⟨state, hstate, hsnapshot⟩ := Option.bind_eq_some_iff.1 hcarried
    exact h.carried state S hstate hsnapshot

theorem FitsMemory.resolved (h : FitsMemory s t) (hstate : t.pipelineState = some incoming)
    (hcurrent : resolvedSnapshot c s incoming (Compute.localSchema s t) = some current) :
    FitsSlice current := by
  unfold resolvedSnapshot at hcurrent
  rcases Option.or_eq_some_iff.1 hcurrent with hfirst | ⟨-, hlocal⟩
  · rcases Option.or_eq_some_iff.1 hfirst with hsnapshot | ⟨-, hrevision⟩
    · exact h.carried incoming current hstate hsnapshot
    · exact h.registry.revisions _ current (Option.filter_eq_some_iff.1 hrevision).1
  · split_ifs at hlocal
    exact Option.some.inj hlocal ▸ h.localSchema

/-- A request that has been bound is executed without a panic. -/
theorem executePipelineStep_returns (hregistry : RegistryFits s)
    (hstate : t.pipelineState = some state) (hsnapshot : state.snapshot = some schema)
    (hfits : FitsSlice schema) (hbounds : state.currentStep ≤ schema.steps.length) :
    (executePipelineStep c t schema).Ends (handler c w) s fun o _ => o.isSome := by
  by_cases hnonneg : 0 ≤ state.currentStep
  · have hfine : Fine bounded.owns bounded.flows t := by
      refine ⟨trivial, fun state' hstate' => ?_⟩
      cases hstate.symm.trans hstate'
      exact ⟨schema, hsnapshot, hfits, hnonneg, hbounds⟩
    have hobeys : (boundedRegistry c w).Keeps (executePipelineStep c t schema) := by
      refine Discipline.keeps (n := 0) (Conduct.executePipelineStep_runs
        (Discipline.good_iff.2 hfine) fun state' hstate' => ?_)
      cases hstate.symm.trans hstate'
      exact hsnapshot
    refine (hobeys.ends (boundedRegistry c w).rules_sound hregistry).mono ?_
    rintro (_ | _) s' ⟨hreturns, -⟩
    · exact hreturns.elim
    · rfl
  · -- a negative index is no step
    have hnone : schema.stepAt state.currentStep = none := if_neg hnonneg
    unfold executePipelineStep
    rw [hstate]
    dsimp only
    rw [hnone]
    exact sendPipelineError_returns _ _

/-- The definition a task goes on with fits, and the state carries it. -/
theorem FitsMemory.migrated (h : FitsMemory s t) (hstate : t.pipelineState = some incoming)
    (hcurrent : resolvedSnapshot c s incoming (Compute.localSchema s t) = some current)
    (hmigration : MigrationResult c { incoming with snapshot := some current } current
      (Compute.localSchema s t) (some (schema, state))) :
    FitsSlice schema ∧ state.snapshot = some schema := by
  cases hmigration with
  | kept => exact ⟨h.resolved hstate hcurrent, rfl⟩
  | adopted _ _ hretargeted =>
    refine ⟨h.localSchema, ?_⟩
    rw [hretargeted]
    rfl

theorem processTask_returns (hfits : FitsMemory s t) :
    (processTask c t).Ends (handler c w) s fun o _ => o.isSome = true ↔ ¬PanicsAtBind c s t := by
  set cleaned := { t with payload := some ((t.payload.getD []).filter fun e => e.1 ≠ "$pipeline") }
  have hbind : (bindPipelineState c cleaned (localSchema s t)).Ends (handler c w) s
      fun o s' => BindResult c s cleaned (localSchema s t) o ∧ s.Same s' :=
    Obeys.prepared (bindPipelineState_prepares cleaned (localSchema s t))
  have hcleaned : BindPanics c s cleaned (localSchema s t) ↔ PanicsAtBind c s t := Iff.rfl
  refine (registeredOrCarried_ends _ _).2 (Ends.bind hbind ?_ ?_)
  · rintro s' ⟨hresult, -⟩
    exact iff_of_false (by simp) fun h => h (hcleaned.1 hresult.panics)
  rintro bound s' ⟨hresult, hsame⟩
  have hnot : ¬PanicsAtBind c s t := fun h => hresult.not_panics (hcleaned.2 h)
  have hregistry : RegistryFits s' := hfits.registry.of_same hsame.pipelines hsame.revisions
  have hreturns : ∀ {p : Call Action Unit}, p.Ends (handler c w) s' (fun o _ => o.isSome) →
      p.Ends (handler c w) s' fun o _ => o.isSome = true ↔ ¬PanicsAtBind c s t :=
    fun hp => hp.mono fun o _ ho => iff_of_true ho hnot
  cases hresult with
  | fresh hstate =>
    exact hreturns (executePipelineStep_returns hregistry rfl rfl hfits.localSchema
      (by simp [initialState]))
  | refused err | rejected err => exact hreturns (sendPipelineError_returns _ err)
  | bound hstate hid hcurrent hmigration hbounds hprovenance =>
    obtain ⟨hslice, hsnapshot⟩ := hfits.migrated hstate hcurrent hmigration
    refine hreturns (executePipelineStep_returns hregistry rfl ?_ hslice ?_)
    · rwa [snapshot_ensureInitialProducer]
    · rwa [currentStep_ensureInitialProducer]

/-! ## Admission -/

theorem admitTask_returns (req : TaskRequest) :
    (admitTask req).Ends (handler c w) s fun o _ => o.isSome := by
  refine ends_perform_bind.2 ?_
  split
  · rfl
  refine ends_perform_bind.2 ?_
  split
  · split <;> rfl
  refine ends_perform_bind.2 ?_
  split
  · split <;> rfl
  · rfl

theorem submitTask_returns (req : TaskRequest) :
    (submitTask c req).Ends (handler c w) s fun o _ => o.isSome := by
  unfold submitTask
  split
  · rfl
  dsimp only
  split
  · rename_i hnone
    -- only a request without a state is bound here, so nothing migrates
    unfold bindPipelineTask
    refine ends_bind.2 ((registeredOrCarried_ends _ _).2 ?_)
    split
    · exact admitTask_returns _
    · unfold bindPipelineState
      rw [Option.isNone_iff_eq_none.1 hnone]
      exact admitTask_returns _
  · exact admitTask_returns _

theorem handleServiceSubmit_returns (submitterNodeID : String) (req : TaskRequest) :
    (handleServiceSubmit c submitterNodeID req).Ends (handler c w) s fun o _ => o.isSome := by
  unfold handleServiceSubmit getPipeline
  refine ends_perform_bind.2 ?_
  split
  · rfl
  refine ends_perform_bind.2 ?_
  split
  · exact submitTask_returns _
  refine ends_bind.2 (ends_perform_bind.2 ?_)
  split
  · rfl
  · simp only [ends_pure, then_some]
    split
    · rfl
    · exact submitTask_returns _

/-- A pipeline and a newer revision of it. -/
def revised (version : ℤ) : PipelineSchema where
  id := "p"
  version := version
  steps := [{ id := "only", service := "f" }]

/-- A node where the newer revision is registered. -/
def revisedNode : Engine :=
  ((Engine.new .empty).applyPipelineRevision (.named "a") (revised 2)).2

/-- A request of node `b` for the older revision, at some step. -/
def requestAt (currentStep : ℤ) : TaskRequest where
  taskID := "t"
  service := "p"
  requesterNodeID := "b"
  pipelineState := some
    { pipelineID := "p", pipelineVersion := 1, currentStep := currentStep
      outputProducers := some [("$initial", "b")], snapshot := some (revised 1) }

theorem fitsMemory_requestAt (currentStep : ℤ) :
    FitsMemory revisedNode (requestAt currentStep) := by
  have hrevised : ∀ version, FitsSlice (revised version) := by
    simp [FitsSlice, revised, maxStringSlice]
  refine ⟨RegistryFits.applyPipelineRevision ⟨?_, ?_⟩ fun _ => hrevised 2, ?_⟩
  · simp [Engine.new]
  · simp [Engine.new]
  · rintro _ S ⟨⟩ ⟨⟩
    exact hrevised 1

/-- Actions are answered as node `i` answers them in the states that a cluster reaches. -/
def Cluster.answers (d : Deployment) (policy : Policy)
    (services : String → Bucket String RegisteredService) (i : String) : Rules Action where
  allowed _ := True
  answers e b := ∃ cl,
    Relation.ReflTransGen (Cluster.Step d policy) (Cluster.initial services) cl ∧
      b = (exec (d.node i) (d.world i) e (cl i).state).1

/-- If the definitions fit into slices, no worker of a cluster and no resumption of an escrowed
task panics over an index, whatever happens between its actions. -/
theorem cluster_never_panics (d : Deployment) (policy : Policy)
    (hfits : ∀ S, policy.admits S → FitsSlice S)
    (services : String → Bucket String RegisteredService) (i taskID : String) :
    let rules := Cluster.answers d policy services i
    (worker (d.node i)).Obeys rules (·.isSome) ∧
      (resumeEscrowTask (d.node i) taskID).Obeys rules (·.isSome) ∧
      (wakeupEscrowTasks (d.node i)).Obeys rules (·.isSome) := by
  intro rules
  set D := (bounded_lawful (d.node i)).discipline (d.world i)
  have hagrees : Cluster.Agrees d policy fun _ => bounded :=
    ⟨fun _ _ => trivial, id, id, fun h _ => hfits _ h, fun _ hs => hs.carries⟩
  have hlawful : ∀ j, bounded.Lawful (d.node j) True :=
    fun j => { bounded_lawful (d.node j) with inRange := fun _ => .inl trivial }
  have hreturns : ∀ {α : Type} {p : Call Action α}, D.conduct.Affords 0 p →
      p.Obeys rules (·.isSome) := by
    intro α p hp
    refine ((D.keeps hp).weaken (fun _ _ => trivial) ?_).mono ?_
    · -- the answer comes from a state under the custody
      rintro _ e _ ⟨cl, hrun, rfl⟩
      have hsound : cl.Sound d _ hlawful := Cluster.sound_of_run hagrees hrun
      exact ⟨_, (hsound i).holds, rfl⟩
    · rintro (_ | a) ha
      · exact ha.elim
      · rfl
  have hstocked : D.conduct.Stocked :=
    Discipline.stocked (fun h ht => h.queue _ ht) fun h hget => h.escrow _ _ hget
  exact ⟨hreturns (Conduct.worker_runs hstocked),
    hreturns (Conduct.resumeEscrowTask_runs hstocked taskID),
    hreturns (Conduct.wakeupEscrowTasks_runs hstocked)⟩

theorem cluster_never_panics_revised :
    let policy := { Policy.startedBy "a" with admits := (· = revised 2) }
    (worker (.named "a")).Obeys (Cluster.answers .quiet policy (fun _ => .empty) "a")
      (·.isSome) := by
  refine (cluster_never_panics .quiet _ ?_ _ "a" "t").1
  rintro _ rfl
  simp [FitsSlice, revised, maxStringSlice]

end Proxyma.Compute
