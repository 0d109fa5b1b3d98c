import Proxyma.Compute.Preparation

/-!
# The definition a task is bound to

`bindPipelineState` returns the definition to execute and a request that carries
it.  The definition in the request is always the returned one.  Its hash and
version are written only when a task is bound for the first time and when it
migrates; a task that carries its definition brings them along, and nobody
compares the two.
-/

namespace Proxyma.Compute

open Keyed Atomic Atomic.Call

variable {c : Node} {w : World} {s : Engine} {t : TaskRequest} {localSchema : PipelineSchema}

/-- The hash and the version of a state are those of a definition. -/
def Pins (c : Node) (state : PipelineExecutionState) (schema : PipelineSchema) : Prop :=
  state.schemaHash = c.pipelineSchemaHash schema ∧ state.pipelineVersion = schema.version

/-- What a node can know before it binds a request: the request has no state yet,
or the state pins its definition, or it is about to migrate. -/
def Pinnable (c : Node) (s : Engine) (t : TaskRequest) (localSchema : PipelineSchema) : Prop :=
  ∀ incoming current, t.pipelineState = some incoming →
    resolvedSnapshot c s incoming localSchema = some current →
    Pins c incoming current ∨ Migrates c incoming current localSchema

theorem pins_ensureInitialProducer {state : PipelineExecutionState} {schema : PipelineSchema}
    (nodeID : String) :
    Pins c (state.ensureInitialProducer nodeID) schema ↔ Pins c state schema := by
  obtain ⟨producers, heq⟩ := ensureInitialProducer_eq state nodeID
  rw [heq]
  rfl

theorem pins_adopt {state state' : PipelineExecutionState} {target : PipelineSchema}
    (h : Retargeted (adopt c state target) state') :
    Pins c state' target ∧ state'.snapshot = some target := by
  rw [h]
  exact ⟨⟨rfl, rfl⟩, rfl⟩

/-- If binding succeeds, the request carries the definition that is returned, and
pins it exactly if this could be told beforehand. -/
theorem bound_schema_pinned_iff (c : Node) (w : World) (s : Engine) (t : TaskRequest)
    (localSchema : PipelineSchema) (bound : Bound) (schema : PipelineSchema)
    (hreturns : ((bindPipelineState c t localSchema).prog.run (handler c w) s).1 = some bound)
    (hok : bound.result = .ok schema) :
    ∃ state, bound.request.pipelineState = some state ∧ state.snapshot = some schema ∧
      (Pins c state schema ↔ Pinnable c s t localSchema) := by
  have hresult : BindResult c s t localSchema (some bound) :=
    hreturns ▸ (Obeys.prepared (bindPipelineState_prepares t localSchema)).1
  cases hresult with
  | fresh hstate =>
    cases hok
    refine ⟨_, rfl, rfl, iff_of_true ⟨rfl, rfl⟩ fun incoming _ hincoming => ?_⟩
    cases hstate.symm.trans hincoming
  | refused _ | rejected _ => cases hok
  | @bound incoming state current _ hstate hid hcurrent hmigration hbounds hprovenance =>
    cases hok
    refine ⟨_, rfl, ?_⟩
    rw [snapshot_ensureInitialProducer, pins_ensureInitialProducer]
    have hpinnable : Pinnable c s t localSchema ↔
        Pins c incoming current ∨ Migrates c incoming current localSchema := by
      constructor
      · exact fun h => h incoming current hstate hcurrent
      · rintro h _ _ hincoming hresolved
        cases hstate.symm.trans hincoming
        cases hcurrent.symm.trans hresolved
        exact h
    rw [hpinnable]
    cases hmigration with
    | kept hkept _ =>
      rw [migrates_snapshot] at hkept
      exact ⟨rfl, (or_iff_left hkept).symm⟩
    | adopted hmigrates _ hretargeted =>
      obtain ⟨hpins, hsnapshot⟩ := pins_adopt hretargeted
      exact ⟨hsnapshot, iff_of_true hpins (.inr ((migrates_snapshot _).1 hmigrates))⟩

/-- A definition with one step. -/
def oneStep : PipelineSchema where
  id := "p"
  version := 1
  steps := [{ id := "only", service := "f" }]

/-- A request that carries a definition under another hash and version. -/
def misboundRequest : TaskRequest where
  taskID := "t"
  service := "p"
  requesterNodeID := "a"
  pipelineState := some
    { pipelineID := "p", pipelineVersion := 7, schemaHash := "x", snapshot := some oneStep }

theorem bound_schema_pinned_iff_fresh : ∃ bound : Bound, ∃ state,
    ((bindPipelineState (.named "a") { misboundRequest with pipelineState := none } oneStep).prog.run
      (handler (.named "a") .quiet) (.new .empty)).1 = some bound ∧
    bound.request.pipelineState = some state ∧ state.snapshot = some oneStep ∧
      Pins (.named "a") state oneStep := by
  obtain ⟨state, hstate, hsnapshot, hpins⟩ := bound_schema_pinned_iff (.named "a") .quiet
    (.new .empty) { misboundRequest with pipelineState := none } oneStep _ oneStep rfl rfl
  refine ⟨_, state, rfl, hstate, hsnapshot, hpins.2 fun incoming _ hincoming => ?_⟩
  cases hincoming

/-- The definition is taken from the request, and its hash and version stay what
the request says. -/
theorem misbound_request_not_pinned : ∃ bound : Bound, ∃ schema state,
    ((bindPipelineState (.named "a") misboundRequest oneStep).prog.run (handler (.named "a") .quiet)
      (.new .empty)).1 = some bound ∧
    bound.result = .ok schema ∧ bound.request.pipelineState = some state ∧
      ¬Pins (.named "a") state schema := by
  refine ⟨_, _, _, rfl, rfl, rfl, ?_⟩
  unfold Pins
  decide

end Proxyma.Compute
