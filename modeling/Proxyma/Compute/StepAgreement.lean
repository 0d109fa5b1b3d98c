import Proxyma.Compute.Cluster
import Proxyma.Compute.EscrowConservation

/-!
# The step that is prepared and the step that is executed

The sending side of a task looks steps up in the registered definition, by the
index of the task's current step or, on the way out of escrow, by the index of
the escrow entry.  The receiving side binds the task first, and executes a step
of the registered definition only if the task can migrate to it; otherwise it
executes a step of the definition the task carries.

`Agrees` says when the two are the same step.  Binding looks at a small part of
the state only (`BindsAlike`), and what is sent is bound like the task itself or
has migrated already (`Carried`), so `Agrees` can be stated for the task before
it is sent.
-/

namespace Proxyma.Compute

open Keyed Atomic Atomic.Call GoError

variable {c c' : Node} {w w' : World} {s s' : Engine} {st'' : PipelineExecutionState}
variable {st st' : PipelineExecutionState} {L S : PipelineSchema} {req : TaskRequest}
  {step : PipelineStep}

/-! ## States that are bound alike -/

/-- Two states are bound in the same way. -/
structure BindsAlike (st st' : PipelineExecutionState) : Prop where
  pipelineID : st'.pipelineID = st.pipelineID
  version : st'.pipelineVersion = st.pipelineVersion
  schemaHash : st'.schemaHash = st.schemaHash
  snapshot : st'.snapshot = st.snapshot
  currentStep : st'.currentStep = st.currentStep
  outputs : st'.outputs.getD [] = st.outputs.getD []

theorem BindsAlike.refl (st : PipelineExecutionState) : BindsAlike st st :=
  ⟨rfl, rfl, rfl, rfl, rfl, rfl⟩

theorem BindsAlike.trans {a b d : PipelineExecutionState} (hab : BindsAlike a b)
    (hbd : BindsAlike b d) : BindsAlike a d :=
  ⟨hbd.pipelineID.trans hab.pipelineID, hbd.version.trans hab.version,
    hbd.schemaHash.trans hab.schemaHash, hbd.snapshot.trans hab.snapshot,
    hbd.currentStep.trans hab.currentStep, hbd.outputs.trans hab.outputs⟩

theorem Retargeted.bindsAlike (h : Retargeted st st') : BindsAlike st st' := by
  rw [h]
  exact ⟨rfl, rfl, rfl, rfl, rfl, rfl⟩

theorem bindsAlike_received (st : PipelineExecutionState) : BindsAlike st (received st) :=
  ⟨rfl, rfl, rfl, rfl, rfl, getD_omitEmpty _⟩

theorem bindsAlike_ensureInitialProducer (st : PipelineExecutionState) (nodeID : String) :
    BindsAlike st (st.ensureInitialProducer nodeID) := by
  obtain ⟨producers, heq⟩ := ensureInitialProducer_eq st nodeID
  rw [heq]
  exact ⟨rfl, rfl, rfl, rfl, rfl, rfl⟩

theorem validatePrefixMigration_congr {completed : List String}
    {outputs outputs' : Option (List (String × JsonMap))} {current updated : PipelineSchema}
    (h : outputs'.getD [] = outputs.getD []) :
    validatePrefixMigration completed outputs' current updated =
      validatePrefixMigration completed outputs current updated := by
  have hconn : validateUpdatedConnection completed outputs' updated =
      validateUpdatedConnection completed outputs updated := by
    funext conn
    simp only [validateUpdatedConnection, h]
  simp only [validatePrefixMigration, hconn]

theorem BindsAlike.migrates (h : BindsAlike st st')
    (hhash : c'.pipelineSchemaHash = c.pipelineSchemaHash) :
    Migrates c' st' S L ↔ Migrates c st S L := by
  have hupdated : isUpdated c' st' L = isUpdated c st L := by
    simp only [isUpdated, h.version, h.schemaHash, hhash]
  have hvalid : validatePrefixMigration (completedSteps st' S) st'.outputs S L =
      validatePrefixMigration (completedSteps st S) st.outputs S L := by
    rw [completedSteps, h.currentStep, ← completedSteps, validatePrefixMigration_congr h.outputs]
  constructor
  · rintro ⟨⟨hid, hsteps, hup⟩, hv⟩
    exact ⟨⟨hid, hsteps, hupdated ▸ hup⟩, hvalid ▸ hv⟩
  · rintro ⟨⟨hid, hsteps, hup⟩, hv⟩
    exact ⟨⟨hid, hsteps, hupdated.trans hup⟩, hvalid.trans hv⟩

/-! ## The step a receiver executes -/

/-- The step that a node executes after it has bound a request. -/
def executedStep (c : Node) (w : World) (s : Engine) (req : TaskRequest) (L : PipelineSchema) :
    Option PipelineStep :=
  match ((bindPipelineState c req L).prog.run (handler c w) s).1 with
  | some ⟨.ok schema, bound, _⟩ =>
    bound.pipelineState.bind fun st => schema.stepAt st.currentStep
  | _ => none

/-- A step is that of the registered definition for a task that migrates, and that
of the carried one otherwise. -/
def StepOf (c : Node) (st : PipelineExecutionState) (S L : PipelineSchema)
    (step : Option PipelineStep) : Prop :=
  Migrates c st S L ∧ L.stepAt st.currentStep = step ∨
    ¬Migrates c st S L ∧ S.stepAt st.currentStep = step

theorem StepOf.unique {step step' : Option PipelineStep} (h : StepOf c st S L step)
    (h' : StepOf c st S L step') : step = step' := by
  rcases h with ⟨hm, rfl⟩ | ⟨hm, rfl⟩ <;> rcases h' with ⟨hm', rfl⟩ | ⟨hm', rfl⟩
  · rfl
  · exact absurd hm hm'
  · exact absurd hm' hm
  · rfl

theorem stepOf_of_executed (hstate : req.pipelineState = some st)
    (hsnapshot : st.snapshot = some S) (hexecuted : executedStep c w s req L = some step) :
    StepOf c st S L (some step) := by
  have hresult : BindResult c s req L ((bindPipelineState c req L).prog.run (handler c w) s).1 :=
    (Obeys.prepared (bindPipelineState_prepares req L)).1
  rw [executedStep] at hexecuted
  generalize hout : ((bindPipelineState c req L).prog.run (handler c w) s).1 = out at hresult hexecuted
  cases hresult with
  | fresh hnone => exact absurd (hstate.symm.trans hnone) (by simp)
  | refused | panicked | rejected => simp at hexecuted
  | @bound incoming state current schema hincoming hid hcurrent hmigration =>
    cases hstate.symm.trans hincoming
    obtain rfl : S = current := by
      simpa [resolvedSnapshot, hsnapshot] using hcurrent
    have hstep : schema.stepAt state.currentStep = some step := by
      simpa [boundRequest] using hexecuted
    generalize hpair : some (schema, state) = pair at hmigration
    cases hmigration with
    | panicked => cases hpair
    | kept hkept =>
      cases hpair
      exact .inr ⟨fun h => hkept ((migrates_snapshot _).2 h), hstep⟩
    | adopted hmigrates hrange hretargeted =>
      cases hpair
      rw [hretargeted.bindsAlike.currentStep] at hstep
      exact .inl ⟨(migrates_snapshot _).1 hmigrates, hstep⟩

/-- What is sent of a task: a state that is bound like the one before, or one that
has adopted the registered definition. -/
def Carried (c : Node) (st : PipelineExecutionState) (S L : PipelineSchema)
    (st' : PipelineExecutionState) : Prop :=
  BindsAlike st st' ∨ Migrates c st S L ∧ BindsAlike (adopt c st L) st'

theorem Carried.trans (h : Carried c st S L st') (halike : BindsAlike st' st'') :
    Carried c st S L st'' :=
  h.imp (fun h => h.trans halike) fun h => ⟨h.1, h.2.trans halike⟩

theorem BindsAlike.adopt (h : BindsAlike st st') (L : PipelineSchema) :
    BindsAlike (adopt c st L) (adopt c st' L) :=
  ⟨h.pipelineID, rfl, rfl, rfl, h.currentStep, h.outputs⟩

theorem BindsAlike.carried (halike : BindsAlike st st') (h : Carried c st' S L st'') :
    Carried c st S L st'' := by
  rcases h with h | ⟨hmigrates, h⟩
  · exact .inl (halike.trans h)
  · exact .inr ⟨(halike.migrates rfl).1 hmigrates, (halike.adopt L).trans h⟩

/-- A task that has adopted a definition does not adopt it again. -/
theorem not_migrates_adopted (hhash : c'.pipelineSchemaHash = c.pipelineSchemaHash)
    (h : BindsAlike (adopt c st L) st') : ¬Migrates c' st' S L := by
  rintro ⟨⟨-, -, hupdated⟩, -⟩
  simp [isUpdated, h.version, h.schemaHash, adopt, hhash] at hupdated

/-- The receiver of a task executes the same step whatever of the two it gets. -/
theorem Carried.stepOf (h : Carried c st S L st') (hsnapshot : st.snapshot = some S)
    (hhash : c'.pipelineSchemaHash = c.pipelineSchemaHash) (hstate : req.pipelineState = some st')
    (hexecuted : executedStep c' w' s' req L = some step) : StepOf c st S L (some step) := by
  rcases h with halike | ⟨hmigrates, halike⟩
  · have hstep := stepOf_of_executed hstate (halike.snapshot.trans hsnapshot) hexecuted
    simpa only [StepOf, halike.migrates hhash, halike.currentStep] using hstep
  have hstep := stepOf_of_executed hstate halike.snapshot hexecuted
  rcases hstep with ⟨hagain, -⟩ | ⟨-, hstep⟩
  · exact absurd hagain (not_migrates_adopted hhash halike)
  · rw [halike.currentStep] at hstep
    exact .inl ⟨hmigrates, hstep⟩

/-- The step of the registered definition at `i` is the one to be executed. -/
def Agrees (c : Node) (st : PipelineExecutionState) (S L : PipelineSchema) (i : ℤ) : Prop :=
  StepOf c st S L (L.stepAt i)

/-- Whoever gets a request, as it is or as it has been sent, and executes a step of
it, executes this one exactly if `agrees` holds. -/
def ExecutesIff (c : Node) (L : PipelineSchema) (req : TaskRequest) (step : PipelineStep)
    (agrees : Prop) : Prop :=
  ∀ (c' : Node) (w' : World) (s' : Engine) (r : TaskRequest) (step' : PipelineStep),
    c'.pipelineSchemaHash = c.pipelineSchemaHash → (r = req ∨ r = TaskRequest.received req) →
    executedStep c' w' s' r L = some step' → (step' = step ↔ agrees)

theorem Carried.executesIff {i : ℤ} (h : Carried c st S L st') (hsnapshot : st.snapshot = some S)
    (hstate : req.pipelineState = some st') (hstep : L.stepAt i = some step) :
    ExecutesIff c L req step (Agrees c st S L i) := by
  intro c' w' s' r step' hhash hr hexecuted
  have hstepOf : StepOf c st S L (some step') := by
    rcases hr with rfl | rfl
    · exact h.stepOf hsnapshot hhash hstate hexecuted
    · refine (h.trans (bindsAlike_received st')).stepOf hsnapshot hhash ?_ hexecuted
      simp [TaskRequest.received, hstate]
  rw [Agrees, hstep]
  constructor
  · rintro rfl
    exact hstepOf
  · exact fun hagrees => Option.some.inj (hstepOf.unique hagrees)

/-! ## Pinning and preparing -/

theorem sentSchema_registered {service : String} {state : Option PipelineExecutionState}
    (h : s.pipelines.get service = some L) : sentSchema s service state = some L := by
  simp [sentSchema, h]

/-- A node was selected for a step of the list, whose first one has the index `i`. -/
def SelectedIn (c : Node) (w : World) (s : Engine) (steps : List PipelineStep) (i : ℤ)
    (key node : String) : Prop :=
  ∃ (j : ℕ) (step : PipelineStep), steps[j]? = some step ∧ step.id = key ∧
    Selected c w s step (i + j) node

theorem SelectedIn.cons {rest : List PipelineStep} {i : ℤ} {key node : String}
    (h : SelectedIn c w s rest (i + 1) key node) (step : PipelineStep) :
    SelectedIn c w s (step :: rest) i key node := by
  obtain ⟨j, step', hj, hid, hselected⟩ := h
  refine ⟨j + 1, step', hj, hid, ?_⟩
  rwa [show i + ((j + 1 : ℕ) : ℤ) = i + 1 + (j : ℤ) by push_cast; ring]

/-- `prepareTargets` fills in nodes it has selected for steps of the list. -/
theorem prepareTargets_selects (steps : List PipelineStep) (i : ℤ)
    (state : PipelineExecutionState) :
    (prepareTargets c steps i state).Obeys (preparing c w s) fun o =>
      ∃ out, o = some out ∧ Retargeted state out.2 ∧
        ∀ key, out.2.target key ≠ state.target key →
          SelectedIn c w s steps i key (out.2.target key) := by
  induction steps generalizing i state with
  | nil => exact ⟨_, rfl, .refl state, fun key hkey => absurd rfl hkey⟩
  | cons step rest ih =>
    -- the rest of the list, from a state that agrees with the first one
    have hrest : (prepareTargets c rest (i + 1) state).Obeys (preparing c w s) fun o =>
        ∃ out, o = some out ∧ Retargeted state out.2 ∧
          ∀ key, out.2.target key ≠ state.target key →
            SelectedIn c w s (step :: rest) i key (out.2.target key) := by
      refine (ih (i + 1) state).mono ?_
      rintro _ ⟨out, rfl, hretargeted, hselects⟩
      exact ⟨out, rfl, hretargeted, fun key hkey => (hselects key hkey).cons step⟩
    unfold prepareTargets
    split
    · exact hrest
    refine prepare_bind (selectPipelineStepTarget_prepares step i) fun answer hanswer => ?_
    split
    · split
      · exact hrest
      · exact ⟨_, rfl, .refl state, fun key hkey => absurd rfl hkey⟩
    · rename_i target
      refine (ih (i + 1) (state.setTarget step.id target)).mono ?_
      rintro _ ⟨out, rfl, hretargeted, hselects⟩
      refine ⟨out, rfl, (retargeted_setTarget state step.id target).trans hretargeted,
        fun key hkey => ?_⟩
      by_cases hset : out.2.target key = (state.setTarget step.id target).target key
      · -- this round has chosen the node
        rw [hset, target_setTarget] at hkey ⊢
        split_ifs at hkey ⊢ with hid
        · exact ⟨0, step, rfl, hid.symm, by simpa using hanswer target rfl⟩
        · exact absurd rfl hkey
      · exact (hselects key hset).cons step

section Parts

variable {task : TaskEscrowRequest}

theorem Carried.currentStep (h : Carried c st S L st') : st'.currentStep = st.currentStep := by
  rcases h with halike | ⟨-, halike⟩
  · exact halike.currentStep
  · exact halike.currentStep

/-- What `dispatchTask` sends pins the step of the registered definition. -/
def SentPinned (c : Node) (st : PipelineExecutionState) (S L : PipelineSchema) (peerID : String)
    (sent : TaskRequest) : Prop :=
  ∃ step st', L.stepAt st.currentStep = some step ∧ sent.pipelineState = some st' ∧
    Carried c st S L st' ∧ st'.target step.id = peerID

theorem SendResult.logs {peerID : String} {o : Option (Option GoError × Option JsonMap)}
    (h : SendResult c w s peerID req o s') {P : Event → Prop}
    (hasked : ∀ e : Event, e.IsAsked → P e)
    (hsent : ∀ sent err, SentAs s peerID req sent → P (.submitted peerID sent err)) :
    Engine.Logs P s s' := by
  cases h with
  | refused hsame => exact hsame.logs hasked
  | @sent sent _ s₁ hsame _ hsentAs =>
    refine (hsame.logs hasked).trans ⟨[_], rfl, fun e he => ?_⟩
    rw [List.mem_singleton.1 he]
    exact hsent _ _ hsentAs
  | @tracked sent _ s₁ hsame _ hsentAs =>
    refine (hsame.logs hasked).trans ⟨[.submitted peerID sent
      (w.submitTask (registeredState c w s₁ sent).answers)], ?_, fun e he => ?_⟩
    · unfold trackedState
      split <;> rfl
    · rw [List.mem_singleton.1 he]
      exact hsent _ _ hsentAs

/-- What leaves this node for `target`: into its own queue, or to a peer. -/
def Leaves (c : Node) (target : String) (sent : TaskRequest) (e : Event) : Prop :=
  e = .queued sent ∧ target = c.nodeID ∨ ∃ err, e = .submitted target sent err

/-- What a node does to hand on a task with this state: it may ask a peer, and what
leaves it is bound like the task. -/
def HandsOn (c : Node) (target : String) (st : PipelineExecutionState) (S L : PipelineSchema)
    (e : Event) : Prop :=
  e.IsAsked ∨ ∃ sent st', Leaves c target sent e ∧ sent.pipelineState = some st' ∧
    Carried c st S L st'

theorem TaskBindResult.carried {req' : TaskRequest} {shared : Option PipelineExecutionState}
    (h : TaskBindResult c s req (some (none, req', shared)))
    (hregistered : s.pipelines.get req.service = some L) (hstate : req.pipelineState = some st)
    (hsnapshot : st.snapshot = some S) :
    ∃ st', req'.pipelineState = some st' ∧ Carried c st S L st' := by
  generalize hout : some (none, req', shared) = o at h
  cases h with
  | plain => exact ⟨st, by cases hout; exact hstate, .inl (.refl st)⟩
  | @bound schema o hschema hresult =>
    obtain rfl : L = schema :=
      Option.some.inj ((sentSchema_registered hregistered).symm.trans hschema)
    obtain ⟨bound, rfl, hbound⟩ := Option.map_eq_some_iff.1 hout.symm
    simp only [Prod.mk.injEq] at hbound
    obtain ⟨herr, rfl, -⟩ := hbound
    cases hresult with
    | fresh hnone => exact absurd (hstate.symm.trans hnone) (by simp)
    | refused err hincoming | rejected err hincoming => simp [Bound.error] at herr
    | @bound incoming state current schema hincoming hid hcurrent hmigration =>
      cases hstate.symm.trans hincoming
      obtain rfl : S = current := by simpa [resolvedSnapshot, hsnapshot] using hcurrent
      have hproducer := bindsAlike_ensureInitialProducer state req.requesterNodeID
      refine ⟨_, rfl, Carried.trans ?_ hproducer⟩
      have hsame : ({ st with snapshot := some S } : PipelineExecutionState) = st := by
        rw [← hsnapshot]
      rw [hsame] at hmigration
      generalize hpair : some (schema, state) = pair at hmigration
      cases hmigration with
      | panicked => cases hpair
      | kept =>
        cases hpair
        exact .inl (.refl st)
      | adopted hmigrates hrange hretargeted =>
        cases hpair
        exact .inr ⟨hmigrates, hretargeted.bindsAlike⟩

section Registered

variable (hregistered : s.pipelines.get req.service = some L) (hstate : req.pipelineState = some st)
  (hsnapshot : st.snapshot = some S)

include hregistered hstate hsnapshot

/-- `bindPipelineStepTarget` pins the step of the registered definition. -/
theorem bindPipelineStepTarget_pins (target : String) :
    (bindPipelineStepTarget req target).Ends (handler c w) s fun o _ =>
      ∀ pinned, o = some (none, pinned) → ∃ step st', L.stepAt st.currentStep = some step ∧
        pinned.pipelineState = some st' ∧ st'.target step.id = target ∧
        ExecutesIff c L pinned step (Agrees c st S L st.currentStep) := by
  refine (Obeys.prepared (bindPipelineStepTarget_prepares req target)).mono ?_
  rintro o s₁ ⟨⟨out, rfl, hpinned, -⟩, -⟩ pinned hout
  cases hout
  have hresult := hpinned rfl
  dsimp only at hresult
  cases hresult with
  | plain hplain =>
    cases (sentSchema_registered hregistered).symm.trans (hplain st hstate)
  | @pinned state step hstate' hstep htarget =>
    cases hstate.symm.trans hstate'
    have hat : L.stepAt st.currentStep = some step := by
      simpa [sentStep, hstate, sentSchema_registered hregistered] using hstep
    refine ⟨step, _, hat, rfl, by rw [target_setTarget, if_pos rfl], ?_⟩
    exact Carried.executesIff (.inl (retargeted_setTarget st step.id target).bindsAlike)
      hsnapshot rfl hat

/-- `preparePipelineTargets` chooses nodes for steps of the registered definition. -/
theorem preparePipelineTargets_selects :
    (preparePipelineTargets c req).Ends (handler c w) s fun o _ =>
      ∀ err prepared, o = some (err, prepared) → ∃ st', prepared.pipelineState = some st' ∧
        ∀ key, st'.target key ≠ st.target key → ∃ (i : ℤ) (step : PipelineStep),
          L.stepAt i = some step ∧ step.id = key ∧ Selected c w s step i (st'.target key) ∧
            (i = st.currentStep →
              ExecutesIff c L prepared step (Agrees c st S L st.currentStep)) := by
  unfold preparePipelineTargets
  rw [hstate]
  refine (registeredOrCarried_ends _ _).2 ?_
  rw [sentSchema_registered hregistered]
  have htargets : ∀ key, ({ st with selectedTargets := some (st.selectedTargets.getD []) } :
      PipelineExecutionState).target key = st.target key := fun key => rfl
  refine Ends.bind (Obeys.prepared (prepareTargets_selects L.steps 0 _)) ?_ ?_
  · rintro s₁ ⟨⟨_, ⟨⟩, -⟩, -⟩
  rintro ⟨err, st'⟩ s₁ ⟨⟨_, ⟨⟩, hretargeted, hselects⟩, -⟩
  refine ends_pure.2 ?_
  rintro _ _ ⟨⟩
  refine ⟨st', rfl, fun key hkey => ?_⟩
  obtain ⟨j, step, hj, hid, hselected⟩ := hselects key (by rwa [htargets])
  have hat : L.stepAt j = some step := by simpa [PipelineSchema.stepAt] using hj
  refine ⟨j, step, hat, hid, by simpa using hselected, fun hcurrent => ?_⟩
  rw [← hcurrent]
  have hchanged := (retargeted_allocated st).trans hretargeted
  exact Carried.executesIff (.inl hchanged.bindsAlike) hsnapshot rfl hat

/-- `verifyContinuation` asks for the step of the registered definition. -/
theorem verifyContinuation_queries (peerID : String) :
    (verifyContinuation peerID req).Ends (handler c w) s fun _ s₁ =>
      Engine.Logs (fun e => ∃ step, L.stepAt st.currentStep = some step ∧
        e = .asked peerID (stepQuery step st.currentStep []) ∧
        ExecutesIff c L req step (Agrees c st S L st.currentStep)) s s₁ := by
  unfold verifyContinuation
  rw [hstate]
  dsimp only
  split
  · exact ends_pure.2 (.of_eq rfl)
  refine (registeredOrCarried_ends _ _).2 ?_
  rw [sentSchema_registered hregistered, Option.bind_some]
  split
  · exact ends_pure.2 (.of_eq rfl)
  rename_i step hat
  have hiff := Carried.executesIff (c := c) (.inl (.refl st)) hsnapshot hstate hat
  refine ends_perform_bind.2 ?_
  split
  · exact ends_pure.2 ⟨[_], rfl, fun e he => ⟨step, hat, List.mem_singleton.1 he, hiff⟩⟩
  split <;>
    exact ends_pure.2 ⟨[_], rfl, fun e he => ⟨step, hat, List.mem_singleton.1 he, hiff⟩⟩

/-! ## Dispatching -/

theorem dispatchTask_logs (peerID : String) :
    (dispatchTask c peerID req).Ends (handler c w) s fun _ s₁ =>
      Engine.Logs (fun e => e.IsAsked ∨ ∃ sent err, e = .submitted peerID sent err ∧
        SentPinned c st S L peerID sent) s s₁ := by
  refine (dispatchTask_ends peerID req).mono ?_
  intro o s' hresult
  have hasked : ∀ e : Event, e.IsAsked → e.IsAsked ∨ ∃ sent err,
      e = .submitted peerID sent err ∧ SentPinned c st S L peerID sent := fun e => .inl
  cases hresult with
  | panicked _ _ hsame | unbound _ hsame => exact hsame.logs hasked
  | @sent bound shared err payload s₁ _ hbound hsame hsend =>
    refine (hsame.logs hasked).trans (hsend.logs hasked fun sent err hsent => ?_)
    obtain ⟨st₁, hst₁, hcarried⟩ := hbound.carried hregistered hstate hsnapshot
    obtain ⟨st', hst', hretargeted, hpinned⟩ := hsent.some st₁ hst₁
    have hservice : bound.service = req.service := by rw [hbound.request_eq]; rfl
    have hschema : sentSchema s₁ bound.service bound.pipelineState = some L :=
      sentSchema_registered (by rw [hsame.pipelines, hservice]; exact hregistered)
    obtain ⟨step, hstep, htarget, -⟩ := hpinned L hschema
    rw [hcarried.currentStep] at hstep
    exact .inr ⟨sent, err, rfl, step, st', hstep, hst',
      hcarried.trans hretargeted.bindsAlike, htarget⟩

theorem handOver_logs (target : String) :
    (handOver c target req).Ends (handler c w) s fun _ s₁ =>
      Engine.Logs (HandsOn c target st S L) s s₁ := by
  unfold handOver
  split
  · rename_i hlocal
    refine deleteAccepted_bind.2 (Ends.bind (submitTask_ends (by rw [hstate]; rfl)) ?_ ?_)
    · rintro s' ⟨_, ⟨⟩, -⟩
    rintro err s' ⟨_, ⟨⟩, hresult⟩
    refine ends_pure.2 ?_
    rcases hresult with ⟨-, -, rfl⟩ | ⟨-, hadmit⟩
    · exact .of_eq rfl
    cases hadmit with
    | closed | known | conflict => exact .of_eq rfl
    | enqueued =>
      simp only [Engine.enqueue]
      repeat' split
      · exact .of_eq rfl
      · exact .of_eq rfl
      · refine ⟨[_], rfl, fun e he => .inr ⟨requestedBy c req, st, ?_, hstate, ?_⟩⟩
        · exact .inl ⟨List.mem_singleton.1 he, hlocal⟩
        · exact .inl (.refl st)
      · exact .of_eq rfl
  split
  · exact ends_pure.2 (.of_eq rfl)
  have hdispatched : (dispatchTask c target req).Ends (handler c w) s fun _ s₁ =>
      Engine.Logs (HandsOn c target st S L) s s₁ := by
    refine (dispatchTask_logs hregistered hstate hsnapshot target).mono fun _ _ hlogs => ?_
    refine hlogs.mono fun e he => he.imp_right ?_
    rintro ⟨sent, err, rfl, step, st', -, hst', hcarried, -⟩
    exact ⟨sent, st', .inr ⟨err, rfl⟩, hst', hcarried⟩
  refine Ends.bind hdispatched (fun _ h => h) ?_
  rintro ⟨err, _⟩ s' hlogs
  dsimp only
  split
  · exact ends_pure.2 hlogs
  · exact deleteAccepted_bind.2 (ends_pure.2 hlogs)

end Registered

/-! ## Resuming -/

theorem snapshot_resumeState {stepIndex : ℤ} {target : String}
    (hstate : task.pipelineState = some st) (hsnapshot : st.snapshot = some S) :
    (resumeState c task L stepIndex step target).snapshot = some S := by
  refine resumeState_induction (P := fun st => st.snapshot = some S) hstate ?_ ?_ ?_ ?_
  · simp [hsnapshot]
  · simp
  · exact fun _ _ _ h => h
  · exact fun _ h => h

theorem resumeTaken_logs (taskID : String) (stepIndex : ℤ) (step : PipelineStep) (target : String)
    (hregistered : s.pipelines.get task.service = some L) (hstate : task.pipelineState = some st)
    (hsnapshot : st.snapshot = some S) :
    (resumeTaken c taskID task L stepIndex step target).Ends (handler c w) s fun _ s₁ =>
      Engine.Logs (HandsOn c target (resumeState c task L stepIndex step target) S L) s s₁ := by
  set resumed := resumeState c task L stepIndex step target with hresumed
  have hasked : ∀ e : Event, e.IsAsked → HandsOn c target resumed S L e := fun e => .inl
  refine read_ends.2 (Ends.bind (Obeys.prepared (preparePipelineTargets_asks _).prepares) ?_ ?_)
  · rintro s' ⟨⟨_, ⟨⟩, -⟩, -⟩
  rintro ⟨err, req⟩ s₁ ⟨⟨_, ⟨⟩, hfilled⟩, hsame₁⟩
  replace hfilled : FilledRequest (resumeRequest c task L stepIndex step target) req := hfilled
  obtain ⟨st₁, hst₁, hfill⟩ := hfilled.some _ rfl
  have halike := hfill.retargeted.bindsAlike
  refine ends_perform_bind.2 ?_
  set expected := ((handler c w).exec (.expectProducer task.taskID target
    ((req.pipelineState.map PipelineExecutionState.targets).getD [])) s₁).2
  have hsame : s.Same expected := hsame₁.trans (same_exec c w _ s₁ rfl)
  have hservice : req.service = task.service := by rw [hfilled.eq]; rfl
  have hover := handOver_logs (c := c) (w := w) (L := L) (S := S)
    (by rw [hsame.pipelines, hservice]; exact hregistered) hst₁
    (halike.snapshot.trans (snapshot_resumeState hstate hsnapshot)) target
  have hlift : ∀ s', Engine.Logs (HandsOn c target st₁ S L) expected s' →
      Engine.Logs (HandsOn c target resumed S L) s s' := by
    intro s' hlogs
    refine (hsame.logs hasked).trans (hlogs.mono fun e he => he.imp_right ?_)
    rintro ⟨sent, st', hleaves, hst', hcarried⟩
    exact ⟨sent, st', hleaves, hst', halike.carried hcarried⟩
  refine Ends.bind hover hlift ?_
  intro err s' hlogs
  split
  · exact ends_bind.2 ((hlift s' hlogs).trans (.of_eq rfl))
  · refine ends_bind.2 (setTaskStatus_bind.2 (ends_perform_bind.2 ?_))
    have hstatus : ∀ response, Engine.Logs (HandsOn c target resumed S L) s
        (statusState c w s' response) := fun _ => (hlift s' hlogs).trans (.of_eq rfl)
    exact (hstatus _).trans ((Engine.same_recordCheckpoint c w _ _).logs hasked)

/-- `resumeEscrowTask` looks for a node for the step of the registered definition
at the index of the entry, and pins it. -/
theorem resumeEscrowTask_logs {id : String} (hentry : s.escrow.get id = some task)
    (hregistered : s.pipelines.get task.service = some L) (hstate : task.pipelineState = some st)
    (hsnapshot : st.snapshot = some S) :
    (resumeEscrowTask c id).Ends (handler c w) s fun _ s₁ =>
      Engine.Logs (fun e => e.IsAsked ∨ ∃ step target sent,
        L.stepAt task.stepIndex = some step ∧ target = candidateFor c w s step task.stepIndex ∧
        Leaves c target sent e ∧
        (resumeState c task L task.stepIndex step target).target step.id = target ∧
        ExecutesIff c L sent step
          (Agrees c (resumeState c task L task.stepIndex step target) S L task.stepIndex)) s s₁ := by
  refine read_ends.2 ?_
  rw [hentry]
  refine (registeredOrCarried_ends _ _).2 ?_
  rw [sentSchema_registered hregistered]
  dsimp only
  split
  · exact ends_pure.2 (.of_eq rfl)
  rename_i step hstep
  refine findCandidate_bind fun s₁ hsame => ?_
  split
  · exact ends_pure.2 (hsame.logs fun e => .inl)
  refine ends_perform_bind.2 ?_
  have htaken : ((handler c w).exec (.takeEscrow id) s₁).1 = some task := by
    rw [← hentry, ← hsame.escrow]
    rfl
  rw [htaken]
  set taken := ((handler c w).exec (.takeEscrow id) s₁).2
  have hregistered' : taken.pipelines.get task.service = some L := by
    rwa [show taken.pipelines = s₁.pipelines from rfl, hsame.pipelines]
  refine (resumeTaken_logs id task.stepIndex step (candidateFor c w s step task.stepIndex)
    hregistered' hstate hsnapshot).mono fun _ s₂ hlogs => ?_
  have hbefore : Engine.Logs Event.IsAsked s taken := hsame.logs fun e h => h
  refine (hbefore.mono fun e => .inl).trans (hlogs.mono fun e he => he.imp_right ?_)
  rintro ⟨sent, st', hleaves, hst', hcarried⟩
  refine ⟨step, _, sent, hstep, rfl, hleaves, ?_, ?_⟩
  · simp [resumeState, target_setTarget]
  · exact hcarried.executesIff (snapshot_resumeState hstate hsnapshot) hst' hstep

end Parts

/-- For a task in flight with a state `st` that carries the definition `S`, whatever
definition `L` is registered: the step that is pinned, asked for or looked for is
the one that a receiver executes, exactly if the definitions agree. -/
theorem coordinator_step_executed_iff (c : Node) (w : World) (s : Engine)
    (st : PipelineExecutionState) (S L : PipelineSchema) (hsnapshot : st.snapshot = some S) :
    (∀ req, s.pipelines.get req.service = some L → req.pipelineState = some st →
      (∀ target, (bindPipelineStepTarget req target).Ends (handler c w) s fun o _ =>
        ∀ pinned, o = some (none, pinned) → ∃ step st', L.stepAt st.currentStep = some step ∧
          pinned.pipelineState = some st' ∧ st'.target step.id = target ∧
          ExecutesIff c L pinned step (Agrees c st S L st.currentStep)) ∧
      ((preparePipelineTargets c req).Ends (handler c w) s fun o _ =>
        ∀ err prepared, o = some (err, prepared) → ∃ st', prepared.pipelineState = some st' ∧
          ∀ key, st'.target key ≠ st.target key → ∃ (i : ℤ) (step : PipelineStep),
            L.stepAt i = some step ∧ step.id = key ∧ Selected c w s step i (st'.target key) ∧
              (i = st.currentStep →
                ExecutesIff c L prepared step (Agrees c st S L st.currentStep))) ∧
      (∀ peerID, (verifyContinuation peerID req).Ends (handler c w) s fun _ s₁ =>
        Engine.Logs (fun e => ∃ step, L.stepAt st.currentStep = some step ∧
          e = .asked peerID (stepQuery step st.currentStep []) ∧
          ExecutesIff c L req step (Agrees c st S L st.currentStep)) s s₁) ∧
      ∀ peerID, (dispatchTask c peerID req).Ends (handler c w) s fun _ s₁ =>
        Engine.Logs (fun e => e.IsAsked ∨ ∃ sent err step st', e = .submitted peerID sent err ∧
          L.stepAt st.currentStep = some step ∧ sent.pipelineState = some st' ∧
          st'.target step.id = peerID ∧
          ExecutesIff c L sent step (Agrees c st S L st.currentStep)) s s₁) ∧
    ∀ id task, s.escrow.get id = some task → s.pipelines.get task.service = some L →
      task.pipelineState = some st → (resumeEscrowTask c id).Ends (handler c w) s fun _ s₁ =>
        Engine.Logs (fun e => e.IsAsked ∨ ∃ step target sent,
          L.stepAt task.stepIndex = some step ∧
          target = candidateFor c w s step task.stepIndex ∧ Leaves c target sent e ∧
          (resumeState c task L task.stepIndex step target).target step.id = target ∧
          ExecutesIff c L sent step
            (Agrees c (resumeState c task L task.stepIndex step target) S L task.stepIndex))
          s s₁ := by
  refine ⟨fun req hregistered hstate => ⟨fun target => ?_, ?_, fun peerID => ?_, fun peerID => ?_⟩,
    fun id task hentry hregistered hstate => ?_⟩
  · exact bindPipelineStepTarget_pins hregistered hstate hsnapshot target
  · exact preparePipelineTargets_selects hregistered hstate hsnapshot
  · exact verifyContinuation_queries hregistered hstate hsnapshot peerID
  · refine (dispatchTask_logs hregistered hstate hsnapshot peerID).mono fun _ _ hlogs => ?_
    refine hlogs.mono fun e he => he.imp_right ?_
    rintro ⟨sent, err, rfl, step, st', hstep, hst', hcarried, htarget⟩
    exact ⟨sent, err, step, st', rfl, hstep, hst', htarget,
      hcarried.executesIff hsnapshot hst' hstep⟩
  · exact resumeEscrowTask_logs hentry hregistered hstate hsnapshot

/-- The definition a task was started with. -/
def carriedSchema : PipelineSchema where
  id := "p"
  version := 1
  steps := [{ id := "one", service := "f" }, { id := "two", service := "g" }]

/-- A later one, in which the first step is run by another service. -/
def changedSchema : PipelineSchema where
  id := "p"
  version := 2
  steps := [{ id := "one", service := "e" }, { id := "zwei", service := "h" }]

/-- The state of a task whose first step has run. -/
def secondStepState : PipelineExecutionState where
  pipelineID := "p"
  pipelineVersion := 1
  schemaHash := "one,two"
  snapshot := some carriedSchema
  currentStep := 1
  outputs := some [("one", [])]
  outputProducers := some [("$initial", "r"), ("one", "a")]

/-- The task, which `r` has started. -/
def secondStepTask : TaskRequest :=
  { taskID := "t", service := "p", requesterNodeID := "r", pipelineState := some secondStepState }

/-- A node that has registered the later definition. -/
def changedNode : Engine :=
  { Engine.new .empty with
    pipelines := Bucket.empty.put "p" changedSchema
    pipelineRevisions := Bucket.empty.put "p" changedSchema }

theorem coordinator_step_executed_iff_second :
    changedNode.pipelines.get "p" = some changedSchema ∧
      (verifyContinuation "b" secondStepTask).Ends (handler (.named "a") .quiet) changedNode
        fun _ s₁ => Engine.Logs (fun e => ∃ step, changedSchema.stepAt 1 = some step ∧
          e = .asked "b" (stepQuery step 1 []) ∧
          ExecutesIff (.named "a") changedSchema secondStepTask step
            (Agrees (.named "a") secondStepState carriedSchema changedSchema 1)) changedNode s₁ :=
  ⟨rfl, ((coordinator_step_executed_iff (.named "a") .quiet changedNode secondStepState
    carriedSchema changedSchema rfl).1 secondStepTask rfl rfl).2.2.1 "b"⟩

/-- The peer is asked for the service of the later definition and its step is pinned
to it, and the peer executes a step of the earlier one. -/
theorem receiver_executes_other_step :
    let dispatched := ((dispatchTask (.named "a") "b" secondStepTask).prog.run
      (handler (.named "a") .quiet) changedNode).2
    (dispatched.trace.map fun e => match e with
      | .asked peer query => some (peer, query.service)
      | _ => none) = [some ("b", "h"), none] ∧
      (dispatched.trace.map fun e => match e with
        | .submitted _ sent none => (sent.pipelineState.map fun st => (st.target "zwei", st.target "two"),
            (executedStep (.named "b") .quiet changedNode (TaskRequest.received sent)
              changedSchema).map PipelineStep.service)
        | _ => (none, none)) = [(none, none), (some ("b", ""), some "g")] := by
  decide +kernel

end Proxyma.Compute
