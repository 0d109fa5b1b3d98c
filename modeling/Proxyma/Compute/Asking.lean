import Proxyma.Compute.Execution

/-!
# Calls that only ask

Much of what an engine does before it moves a task is to look at its tables, to ask
the finder and its peers, and to note who may answer.  Such calls come to the same
whatever else is required of an engine, so they are gone through here once, for any
answers they get (`Asks`).  What they change of a task are the nodes that its steps
are to run on (`Retargeted`), and mostly they only fill these in (`Filled`).
-/

namespace Proxyma.Compute

open Keyed Atomic Atomic.Call GoError

/-! ## Targets -/

/-- States that differ in the selected targets only. -/
def Retargeted (state state' : PipelineExecutionState) : Prop :=
  state' = { state with selectedTargets := state'.selectedTargets }

theorem Retargeted.refl (state : PipelineExecutionState) : Retargeted state state := rfl

theorem Retargeted.trans {a b d : PipelineExecutionState} (hab : Retargeted a b)
    (hbd : Retargeted b d) : Retargeted a d := by
  unfold Retargeted at *
  rw [hbd, hab]

theorem Retargeted.symm {a b : PipelineExecutionState} (h : Retargeted a b) : Retargeted b a := by
  unfold Retargeted at *
  rw [h]

theorem retargeted_allocated (state : PipelineExecutionState) :
    Retargeted state { state with selectedTargets := some (state.selectedTargets.getD []) } := rfl

theorem retargeted_setTarget (state : PipelineExecutionState) (stepID target : String) :
    Retargeted state (state.setTarget stepID target) := rfl

theorem target_setTarget (state : PipelineExecutionState) (stepID target key : String) :
    (state.setTarget stepID target).target key =
      if key = stepID then target else state.target key := by
  simp only [PipelineExecutionState.target, PipelineExecutionState.setTarget, Option.getD_some,
    lookupKey_assignKey]
  split_ifs <;> rfl

/-- Targets are filled in where there were none. -/
structure Filled (state state' : PipelineExecutionState) : Prop where
  retargeted : Retargeted state state'
  kept : ∀ stepID, state.target stepID ≠ "" → state'.target stepID = state.target stepID

theorem Filled.refl (state : PipelineExecutionState) : Filled state state :=
  ⟨Retargeted.refl state, fun _ _ => rfl⟩

theorem Filled.trans {a b d : PipelineExecutionState} (hab : Filled a b) (hbd : Filled b d) :
    Filled a d := by
  refine ⟨hab.retargeted.trans hbd.retargeted, fun stepID hne => ?_⟩
  have hkept := hab.kept stepID hne
  rw [hbd.kept stepID (hkept ▸ hne), hkept]

theorem filled_allocated (state : PipelineExecutionState) :
    Filled state { state with selectedTargets := some (state.selectedTargets.getD []) } :=
  ⟨retargeted_allocated state, fun _ _ => rfl⟩

theorem filled_setTarget {state : PipelineExecutionState} {stepID : String}
    (hempty : state.target stepID = "") (target : String) :
    Filled state (state.setTarget stepID target) := by
  refine ⟨retargeted_setTarget state stepID target, fun key hne => ?_⟩
  rw [target_setTarget, if_neg]
  rintro rfl
  exact hne hempty

/-- Two requests that differ in the selected targets only, where none is changed. -/
structure FilledRequest (req req' : TaskRequest) : Prop where
  eq : req' = { req with pipelineState := req'.pipelineState }
  none : req.pipelineState = none → req'.pipelineState = none
  some : ∀ state, req.pipelineState = some state →
    ∃ state', req'.pipelineState = some state' ∧ Filled state state'

theorem FilledRequest.refl (req : TaskRequest) : FilledRequest req req :=
  ⟨rfl, id, fun state h => ⟨state, h, Filled.refl state⟩⟩

/-! ## Asking -/

/-- The actions that put nothing into the engine but producers. -/
def Action.asks : {β : Type} → Action β → Bool
  | _, .read _ => true
  | _, .now => true
  | _, .find _ => true
  | _, .fetchServiceBid _ _ => true
  | _, .resolveBlob _ _ => true
  | _, .stage _ => true
  | _, .delegateProducers _ _ => true
  | _, _ => false

/-- The rules of calls that only ask. -/
def asking : Rules Action where
  allowed e := e.asks = true

/-- A call that only asks, and returns something that satisfies `P`. -/
def Asks {α : Type} (P : α → Prop) (p : Call Action α) : Prop :=
  p.Obeys asking fun o => ∃ a, o = some a ∧ P a

section Asks

variable {α β : Type} {P : α → Prop} {Q : β → Prop}

theorem asks_pure {a : α} (h : P a) : Asks P (pure a) := ⟨a, rfl, h⟩

theorem asks_perform {e : Action α} (he : e.asks = true) : Asks (fun _ => True) (perform e) :=
  obeys_perform he fun b _ => ⟨b, rfl, trivial⟩

theorem asks_perform_bind {e : Action α} {g : α → Call Action β} (he : e.asks = true)
    (hg : ∀ b, Asks Q (g b)) : Asks Q (perform e >>= g) :=
  obeys_perform_bind he fun b _ => hg b

theorem Asks.bind {p : Call Action α} {g : α → Call Action β} (hp : Asks P p)
    (hg : ∀ a, P a → Asks Q (g a)) : Asks Q (p >>= g) := by
  refine Obeys.bind hp ?_ ?_
  · rintro ⟨a, ha, -⟩
    cases ha
  · rintro a ⟨_, ⟨⟩, ha⟩
    exact hg a ha

theorem Asks.mono {P' : α → Prop} {p : Call Action α} (hp : Asks P p) (hP : ∀ a, P a → P' a) :
    Asks P' p := by
  refine Obeys.mono hp ?_
  rintro _ ⟨a, rfl, ha⟩
  exact ⟨a, rfl, hP a ha⟩

theorem Asks.obeys {r : Rules Action} {p : Call Action α} (hp : Asks P p)
    (hr : ∀ {γ : Type} (e : Action γ), e.asks = true → r.allowed e) :
    p.Obeys r fun o => ∃ a, o = some a ∧ P a :=
  Obeys.weaken hp hr fun _ _ _ => trivial

end Asks

/-! ## Looking for nodes -/

section Nodes

variable {c : Node}

theorem registeredOrCarried_asks (service : String) (state : Option PipelineExecutionState) :
    Asks (fun _ => True) (registeredOrCarried service state) :=
  asks_perform_bind rfl fun _ => asks_pure trivial

theorem selectPipelineStepTarget_asks (step : PipelineStep) (i : ℤ) :
    Asks (fun _ => True) (selectPipelineStepTarget c step i) := by
  unfold selectPipelineStepTarget
  split
  · exact asks_pure trivial
  refine asks_perform_bind rfl fun localSupports => ?_
  split
  · exact asks_pure trivial
  split
  · exact asks_pure trivial
  refine asks_perform_bind rfl fun answer => ?_
  split
  · exact asks_pure trivial
  split <;> exact asks_pure trivial

theorem selectUpcoming_asks (steps : List PipelineStep) (i : ℤ) (state : PipelineExecutionState) :
    Asks (Retargeted state) (selectUpcoming c steps i state) := by
  induction steps generalizing i state with
  | nil => exact asks_pure (Retargeted.refl state)
  | cons step rest ih =>
    have hset : ∀ target, Asks (Retargeted state)
        (selectUpcoming c rest (i + 1) (state.setTarget step.id target)) := fun target =>
      (ih (i + 1) _).mono fun _ => (retargeted_setTarget state step.id target).trans
    unfold selectUpcoming
    split
    · exact ih (i + 1) state
    split
    · exact hset step.targetNodeID
    refine (selectPipelineStepTarget_asks step i).bind fun answer _ => ?_
    split
    · exact ih (i + 1) state
    · exact hset _

theorem prepareTargets_asks (steps : List PipelineStep) (i : ℤ) (state : PipelineExecutionState) :
    Asks (fun out => Filled state out.2) (prepareTargets c steps i state) := by
  induction steps generalizing i state with
  | nil => exact asks_pure (Filled.refl state)
  | cons step rest ih =>
    unfold prepareTargets
    split
    · exact ih (i + 1) state
    rename_i hempty
    refine (selectPipelineStepTarget_asks step i).bind fun answer _ => ?_
    split
    · split
      · exact ih (i + 1) state
      · exact asks_pure (Filled.refl state)
    · exact (ih (i + 1) _).mono fun _ => (filled_setTarget (not_not.1 hempty) _).trans

theorem preparePipelineTargets_asks (req : TaskRequest) :
    Asks (fun out => FilledRequest req out.2) (preparePipelineTargets c req) := by
  unfold preparePipelineTargets
  split
  · exact asks_pure (FilledRequest.refl req)
  rename_i state hstate
  refine (registeredOrCarried_asks _ _).bind fun schema _ => ?_
  split
  · exact asks_pure (FilledRequest.refl req)
  refine (prepareTargets_asks _ _ _).bind fun out hfilled => ?_
  refine asks_pure ⟨rfl, fun hnone => absurd (hstate.symm.trans hnone) (by simp), ?_⟩
  intro state' hstate'
  cases hstate.symm.trans hstate'
  exact ⟨_, rfl, (filled_allocated state).trans hfilled⟩

/-- A request is as it was, or one of its steps was given another node. -/
def Pinned (req req' : TaskRequest) : Prop :=
  req' = req ∨ ∃ state stepID target, req.pipelineState = some state ∧
    req' = { req with pipelineState := some (state.setTarget stepID target) }

theorem bindPipelineStepTarget_asks (req : TaskRequest) (targetPeerID : String) :
    Asks (fun out => Pinned req out.2) (bindPipelineStepTarget req targetPeerID) := by
  unfold bindPipelineStepTarget
  split
  · exact asks_pure (.inl rfl)
  rename_i state hstate
  refine (registeredOrCarried_asks _ _).bind fun schema _ => ?_
  split
  · exact asks_pure (.inl rfl)
  split
  · exact asks_pure (.inl rfl)
  split
  · exact asks_pure (.inl rfl)
  split
  · exact asks_pure (.inl rfl)
  · exact asks_pure (.inr ⟨state, _, _, hstate, rfl⟩)

theorem verifyContinuation_asks (targetPeerID : String) (req : TaskRequest) :
    Asks (fun _ => True) (verifyContinuation targetPeerID req) := by
  unfold verifyContinuation
  split
  · exact asks_pure trivial
  split
  · exact asks_pure trivial
  refine (registeredOrCarried_asks _ _).bind fun schema _ => ?_
  split
  · exact asks_pure trivial
  refine asks_perform_bind rfl fun bid => ?_
  split
  · exact asks_pure trivial
  split <;> exact asks_pure trivial

theorem findCandidate_asks (step : PipelineStep) (stepIndex : ℤ) :
    Asks (fun _ => True) (findCandidate c step stepIndex) := by
  refine asks_perform_bind rfl fun localSupports => ?_
  split
  · exact asks_pure trivial
  split
  · exact asks_pure trivial
  refine asks_perform_bind rfl fun answer => ?_
  split <;> exact asks_pure trivial

theorem findAlternative_asks (step : PipelineStep) (stepIndex : ℤ) (triedPeers : List String) :
    Asks (fun _ => True) (findAlternative c step stepIndex triedPeers) := by
  refine Asks.bind (P := fun _ => True) ?_ fun found _ => ?_
  · split
    · exact asks_perform_bind rfl fun _ => asks_pure trivial
    · exact asks_pure trivial
  · split
    · exact asks_pure trivial
    split
    · exact asks_pure trivial
    · exact asks_perform_bind rfl fun _ => asks_pure trivial

theorem delegateTo_asks (taskID target : String) :
    Asks (fun _ => True) (delegateTo taskID target) := by
  unfold delegateTo
  split
  · exact asks_perform rfl
  · exact asks_pure trivial

/-! ## Inputs and outputs -/

theorem stageOutputBlobs_asks (outputs : JsonMap) :
    Asks (fun _ => True) (stageOutputBlobs c outputs) := by
  unfold stageOutputBlobs
  split
  · exact asks_perform rfl
  · exact asks_pure trivial

theorem resolveInputs_asks (t : TaskRequest) (step : PipelineStep)
    (producers : List (String × String)) (inputs payload : JsonMap) :
    Asks (fun _ => True) (resolveInputs c t step producers inputs payload) := by
  induction inputs generalizing payload with
  | nil => exact asks_pure trivial
  | cons input rest ih =>
    unfold resolveInputs
    dsimp only
    split
    · exact ih payload
    refine asks_perform_bind rfl fun answer => ?_
    split
    · exact asks_pure trivial
    split
    · exact asks_pure trivial
    · exact ih _

theorem validatePayload_asks (service : String) (payload : JsonMap) :
    Asks (fun _ => True) (validatePayload service payload) := by
  refine asks_perform_bind rfl fun verdict => ?_
  split <;> exact asks_pure trivial

end Nodes

end Proxyma.Compute
