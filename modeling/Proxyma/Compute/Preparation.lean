import Proxyma.Compute.Discipline

/-!
# Preparing a task

Before a task is handed to a node it is bound to a definition and its steps are
given nodes.  None of this moves the task: `Engine.Same` says that queue, escrow,
accepted tasks, reported statuses and registries are as they were, and
`preparing` are the rules of calls that perform only actions of this kind.

Under these rules a lookup has the answer it has in the first state, so the
lemmas below say what binding returns in terms of that state alone.  The results
are inductive predicates: `MigrationResult` for an attempt to adopt a newer
definition and `BindResult` for `bindPipelineState`.
-/

namespace Proxyma.Compute

open Keyed Atomic Atomic.Call GoError

variable {P : Event → Prop} {s s' : Engine} {localSchema : PipelineSchema} {t : TaskRequest}
  {current target : PipelineSchema} {state : PipelineExecutionState}

/-- The actions that leave all tasks where they are. -/
def Action.prepares : {β : Type} → Action β → Bool
  | _, .read _ => true
  | _, .now => true
  | _, .find _ => true
  | _, .fetchServiceBid _ _ => true
  | _, .resolveBlob _ _ => true
  | _, .stage _ => true
  | _, .delegateProducers _ _ => true
  | _, .expectProducer _ _ _ => true
  | _, .restoreMetadata _ _ => true
  | _, .checkpoint _ => true
  | _, _ => false

/-- Two states that differ in producers, journal and answers only. -/
structure Engine.Same (s s' : Engine) : Prop where
  queue : s'.queue = s.queue
  escrow : s'.escrow = s.escrow
  services : s'.services = s.services
  pipelines : s'.pipelines = s.pipelines
  revisions : s'.pipelineRevisions = s.pipelineRevisions
  closed : s'.closed = s.closed
  statuses : s'.tables.statuses = s.tables.statuses
  retired : s'.tables.retired = s.tables.retired
  accepted : s'.tables.accepted = s.tables.accepted
  trace : ∃ asked, s'.trace = s.trace ++ asked ∧ ∀ e ∈ asked, ∃ peer query, e = .asked peer query

theorem Engine.Same.refl (s : Engine) : s.Same s :=
  ⟨rfl, rfl, rfl, rfl, rfl, rfl, rfl, rfl, rfl, [], by simp⟩

theorem Engine.Same.trans {a b d : Engine} (hab : a.Same b) (hbd : b.Same d) : a.Same d := by
  obtain ⟨first, hfirst, hasked⟩ := hab.trace
  obtain ⟨second, hsecond, hasked'⟩ := hbd.trace
  refine ⟨hbd.queue.trans hab.queue, hbd.escrow.trans hab.escrow,
    hbd.services.trans hab.services, hbd.pipelines.trans hab.pipelines,
    hbd.revisions.trans hab.revisions, hbd.closed.trans hab.closed,
    hbd.statuses.trans hab.statuses, hbd.retired.trans hab.retired,
    hbd.accepted.trans hab.accepted, first ++ second, ?_, ?_⟩
  · rw [hsecond, hfirst, List.append_assoc]
  · intro e he
    rcases List.mem_append.1 he with he | he
    · exact hasked e he
    · exact hasked' e he

theorem Engine.same_recordCheckpoint (c : Node) (w : World) (s : Engine)
    (record : Storage.TaskJournalRecord) : s.Same (s.recordCheckpoint c w record).2 := by
  have hself := Engine.Same.refl s
  simp only [Engine.recordCheckpoint]
  split
  · exact hself
  split
  · exact hself
  split
  · exact ⟨rfl, rfl, rfl, rfl, rfl, rfl, rfl, rfl, rfl, hself.trace⟩
  split <;> exact ⟨rfl, rfl, rfl, rfl, rfl, rfl, rfl, rfl, rfl, hself.trace⟩

theorem same_exec (c : Node) (w : World) {β : Type} (e : Action β) (s : Engine)
    (he : e.prepares = true) : s.Same (exec c w e s).2 := by
  have hself := (Engine.Same.refl s).trace
  cases e with
  | fetchServiceBid peerID query =>
    exact ⟨rfl, rfl, rfl, rfl, rfl, rfl, rfl, rfl, rfl, [_], rfl, by simp⟩
  | checkpoint record => exact Engine.same_recordCheckpoint c w s record
  | read | now | find | resolveBlob | stage | delegateProducers | expectProducer |
    restoreMetadata => exact ⟨rfl, rfl, rfl, rfl, rfl, rfl, rfl, rfl, rfl, hself⟩
  | _ => exact absurd he (by simp [Action.prepares])

/-! ## What is logged -/

/-- Everything that has been logged satisfies a predicate. -/
def Engine.Logs (P : Event → Prop) (s s' : Engine) : Prop :=
  ∃ new, s'.trace = s.trace ++ new ∧ ∀ e ∈ new, P e

/-- A peer was asked whether it can run a step. -/
def Event.IsAsked (e : Event) : Prop := ∃ peer query, e = .asked peer query

theorem Engine.Logs.of_eq (h : s'.trace = s.trace) : Engine.Logs P s s' :=
  ⟨[], by simpa using h, by simp⟩

theorem Engine.Logs.trans {s₁ s₂ s₃ : Engine} (h₁ : Engine.Logs P s₁ s₂)
    (h₂ : Engine.Logs P s₂ s₃) : Engine.Logs P s₁ s₃ := by
  obtain ⟨first, hfirst, hP⟩ := h₁
  obtain ⟨second, hsecond, hP'⟩ := h₂
  refine ⟨first ++ second, by rw [hsecond, hfirst, List.append_assoc], fun e he => ?_⟩
  rcases List.mem_append.1 he with he | he
  · exact hP e he
  · exact hP' e he

theorem Engine.Logs.mono {Q : Event → Prop} (h : Engine.Logs P s s') (hPQ : ∀ e, P e → Q e) :
    Engine.Logs Q s s' := by
  obtain ⟨new, hnew, hP⟩ := h
  exact ⟨new, hnew, fun e he => hPQ e (hP e he)⟩

theorem Engine.Same.logs (h : s.Same s') (hasked : ∀ e : Event, e.IsAsked → P e) :
    Engine.Logs P s s' := by
  obtain ⟨asked, htrace, hall⟩ := h.trace
  exact ⟨asked, htrace, fun e he => hasked e (hall e he)⟩

/-- The rules of preparing a task, from a first state on. -/
def preparing (c : Node) (w : World) (s : Engine) : Rules Action where
  allowed e := e.prepares = true
  answers e b := ∃ s', s.Same s' ∧ b = (exec c w e s').1

variable {c : Node} {w : World} {s : Engine}

theorem preparing_sound (c : Node) (w : World) (s : Engine) :
    (preparing c w s).Sound (handler c w) s.Same :=
  fun e s' he hs' => ⟨hs'.trans (same_exec c w e s' he), s', hs', rfl⟩

/-- What a preparing call returns when it is run, and what it leaves. -/
theorem Obeys.prepared {α : Type} {ok : Option α → Prop} {p : Call Action α}
    (hp : p.Obeys (preparing c w s) ok) : p.Ends (handler c w) s fun o s' => ok o ∧ s.Same s' :=
  hp.ends (preparing_sound c w s) (Engine.Same.refl s)

section Combinators

variable {α β : Type} {post : Option β → Prop}
variable {g : α → Call Action β}

theorem prepare_any {e : Action α} (he : e.prepares = true)
    (hg : ∀ a, (g a).Obeys (preparing c w s) post) :
    (perform e >>= g).Obeys (preparing c w s) post :=
  obeys_perform_bind he fun a _ => hg a

theorem prepare_read {view : Engine → α} (hview : ∀ s', s.Same s' → view s' = view s)
    (hg : (g (view s)).Obeys (preparing c w s) post) :
    (perform (.read view) >>= g).Obeys (preparing c w s) post := by
  refine obeys_perform_bind rfl ?_
  rintro _ ⟨s', hs', rfl⟩
  have hanswer : (exec c w (.read view) s').1 = view s := hview s' hs'
  rwa [hanswer]

theorem prepare_bind {ok : α → Prop} {p : Call Action α}
    (hp : p.Obeys (preparing c w s) fun o => ∃ a, o = some a ∧ ok a)
    (hg : ∀ a, ok a → (g a).Obeys (preparing c w s) post) :
    (p >>= g).Obeys (preparing c w s) post := by
  refine Obeys.bind hp ?_ ?_
  · rintro ⟨a, ha, -⟩
    cases ha
  · rintro a ⟨_, ⟨⟩, ha⟩
    exact hg a ha

end Combinators

theorem Asks.prepares {α : Type} {P : α → Prop} {p : Call Action α} (hp : Asks P p) :
    p.Obeys (preparing c w s) fun o => ∃ a, o = some a ∧ P a :=
  hp.obeys fun e he => by
    change e.prepares = true
    cases e <;> first | rfl | exact absurd he (by simp [Action.asks])

/-! ## Lookups -/

/-- The definition that the sending side of a task uses. -/
def sentSchema (s : Engine) (service : String) (state : Option PipelineExecutionState) :
    Option PipelineSchema :=
  (s.pipelines.get service).or (state.bind PipelineExecutionState.snapshot)

theorem getPipeline_bind {β : Type} {post : Option β → Prop} (id : String)
    {g : Option PipelineSchema → Call Action β}
    (hg : (g (s.pipelines.get id)).Obeys (preparing c w s) post) :
    (getPipeline id >>= g).Obeys (preparing c w s) post :=
  prepare_read (fun s' hs' => by rw [hs'.pipelines]) hg

theorem getHandler_bind {β : Type} {post : Option β → Prop} (service : String)
    {g : Bool → Call Action β}
    (hg : (g (s.services.has service)).Obeys (preparing c w s) post) :
    (getHandler service >>= g).Obeys (preparing c w s) post :=
  prepare_read (fun s' hs' => by rw [hs'.services]) hg

theorem registeredOrCarried_bind {β : Type} {post : Option β → Prop} (service : String)
    (state : Option PipelineExecutionState) {g : Option PipelineSchema → Call Action β}
    (hg : (g (sentSchema s service state)).Obeys (preparing c w s) post) :
    (registeredOrCarried service state >>= g).Obeys (preparing c w s) post :=
  getPipeline_bind service hg

theorem read_ends {α β : Type} {post : Option β → Engine → Prop} {view : Engine → α}
    {g : α → Call Action β} :
    (perform (.read view) >>= g).Ends (handler c w) s post ↔
      (g (view s)).Ends (handler c w) s post := Iff.rfl

theorem getHandler_ends {β : Type} {post : Option β → Engine → Prop} (service : String)
    {g : Bool → Call Action β} :
    (getHandler service >>= g).Ends (handler c w) s post ↔
      (g (s.services.has service)).Ends (handler c w) s post := Iff.rfl

theorem registeredOrCarried_ends {β : Type} {post : Option β → Engine → Prop} (service : String)
    (state : Option PipelineExecutionState) {g : Option PipelineSchema → Call Action β} :
    (registeredOrCarried service state >>= g).Ends (handler c w) s post ↔
      (g (sentSchema s service state)).Ends (handler c w) s post := Iff.rfl

/-- Where a step may be sent: to the node it is bound to, to this node if it has
the service, or to whom the finder names. -/
structure Selected (c : Node) (w : World) (s : Engine) (step : PipelineStep) (stepIndex : ℤ)
    (target : String) : Prop where
  bound : step.targetNodeID ≠ "" → step.targetNodeID ≠ c.nodeID → target = step.targetNodeID
  named : (step.targetNodeID = "" ∨ step.targetNodeID = c.nodeID) →
    target = c.nodeID ∧ s.services.has step.service = true ∨
      target ≠ "" ∧ s.services.has step.service = false ∧
        ∃ n, w.serviceFinder n (stepQuery step stepIndex []) false = .ok target

theorem selectPipelineStepTarget_prepares (step : PipelineStep) (stepIndex : ℤ) :
    (selectPipelineStepTarget c step stepIndex).Obeys (preparing c w s) fun o =>
      ∃ answer, o = some answer ∧ ∀ target, answer = .ok target →
        Selected c w s step stepIndex target := by
  unfold selectPipelineStepTarget
  split
  · rename_i hbound
    refine ⟨_, rfl, ?_⟩
    rintro _ ⟨⟩
    refine ⟨fun _ _ => rfl, ?_⟩
    rintro (h | h)
    · exact absurd h hbound.1
    · exact absurd h hbound.2
  rename_i hfree
  have hunbound : ∀ {target}, step.targetNodeID ≠ "" → step.targetNodeID ≠ c.nodeID →
      target = step.targetNodeID := fun h h' => absurd ⟨h, h'⟩ hfree
  refine getHandler_bind step.service ?_
  split
  · rename_i hhas
    refine ⟨_, rfl, ?_⟩
    rintro _ ⟨⟩
    exact ⟨hunbound, fun _ => .inl ⟨rfl, hhas⟩⟩
  rename_i hhas
  rw [Bool.not_eq_true] at hhas
  split
  · exact ⟨_, rfl, by simp⟩
  refine obeys_perform_bind rfl ?_
  rintro _ ⟨s', hs', rfl⟩
  simp only [exec, stepQuery, hs'.services]
  split
  · exact ⟨_, rfl, by simp⟩
  rename_i target hfound
  split
  · exact ⟨_, rfl, by simp⟩
  rename_i hne
  refine ⟨_, rfl, ?_⟩
  rintro _ ⟨⟩
  refine ⟨hunbound, fun _ => .inr ⟨hne, hhas, s'.answers, ?_⟩⟩
  simpa [stepQuery, hhas] using hfound

/-! ## Migration -/

/-- A newer definition of the same pipeline is there. -/
structure Attempts (c : Node) (state : PipelineExecutionState) (current target : PipelineSchema) :
    Prop where
  id : current.id = target.id
  steps : target.steps ≠ []
  updated : isUpdated c state target = true

/-- The index of the current step is no capacity of a slice. -/
def OutOfRange (k : ℤ) : Prop := k < 0 ∨ maxStringSlice < k

/-- A task adopts a newer definition. -/
structure Migrates (c : Node) (state : PipelineExecutionState) (current target : PipelineSchema) :
    Prop where
  attempts : Attempts c state current target
  valid : validatePrefixMigration (completedSteps state current) state.outputs current target = none

theorem attempts_snapshot (snapshot : Option PipelineSchema) :
    Attempts c { state with snapshot := snapshot } current target ↔
      Attempts c state current target := by
  constructor
  all_goals
    rintro ⟨hid, hsteps, hupdated⟩
    exact ⟨hid, hsteps, hupdated⟩

theorem migrates_snapshot (snapshot : Option PipelineSchema) :
    Migrates c { state with snapshot := snapshot } current target ↔
      Migrates c state current target := by
  constructor
  · rintro ⟨hattempts, hvalid⟩
    exact ⟨(attempts_snapshot snapshot).1 hattempts, hvalid⟩
  · rintro ⟨hattempts, hvalid⟩
    exact ⟨(attempts_snapshot snapshot).2 hattempts, hvalid⟩

/-- The ways an attempt to migrate ends. -/
inductive MigrationResult (c : Node) (state : PipelineExecutionState)
    (current target : PipelineSchema) :
    Option (PipelineSchema × PipelineExecutionState) → Prop
  | panicked (hattempts : Attempts c state current target)
      (hrange : OutOfRange state.currentStep) : MigrationResult c state current target none
  | kept (hkept : ¬Migrates c state current target)
      (hrange : ¬(Attempts c state current target ∧ OutOfRange state.currentStep)) :
      MigrationResult c state current target (some (current, state))
  | adopted {state' : PipelineExecutionState} (hmigrates : Migrates c state current target)
      (hrange : ¬OutOfRange state.currentStep)
      (hretargeted : Retargeted (adopt c state target) state') :
      MigrationResult c state current target (some (target, state'))

theorem finishMigration_prepares (t : TaskRequest) (fromVersion : ℤ) (target : PipelineSchema)
    (state : PipelineExecutionState) :
    (finishMigration c t fromVersion target state).Obeys (preparing c w s) fun o =>
      ∃ state', o = some state' ∧ Retargeted state state' := by
  refine prepare_bind (selectUpcoming_asks _ _ state).prepares fun state' hstate' => ?_
  exact prepare_any rfl fun _ => prepare_any rfl fun _ => ⟨state', rfl, hstate'⟩

theorem tryDynamicSchemaMigration_prepares (t : TaskRequest) (state : PipelineExecutionState)
    (current target : PipelineSchema) :
    (tryDynamicSchemaMigration c t state current target).Obeys (preparing c w s)
      (MigrationResult c state current target) := by
  unfold tryDynamicSchemaMigration
  split
  · rename_i hids
    have hattempts : ¬Attempts c state current target := by
      rintro ⟨hid, hsteps, -⟩
      exact hids.elim (fun h => h hid) hsteps
    exact .kept (fun h => hattempts h.attempts) fun h => hattempts h.1
  rename_i hids
  split
  · rename_i hupdated
    have hattempts : ¬Attempts c state current target := fun h => by simp [h.updated] at hupdated
    exact .kept (fun h => hattempts h.attempts) fun h => hattempts h.1
  rename_i hupdated
  have hattempts : Attempts c state current target := by
    refine ⟨?_, fun h => hids (.inr h), by simpa using hupdated⟩
    by_contra h
    exact hids (.inl h)
  split
  next hrange => exact .panicked hattempts hrange
  rename_i hrange
  split
  next err hvalid => exact .kept (fun h => by simp [h.valid] at hvalid) fun h => hrange h.2
  rename_i hvalid
  refine prepare_bind (finishMigration_prepares t _ target _) fun state' hstate' => ?_
  exact .adopted ⟨hattempts, hvalid⟩ hrange hstate'

/-! ## Binding -/

/-- The definition a task was started with, as far as the node can tell. -/
def resolvedSnapshot (c : Node) (s : Engine) (incoming : PipelineExecutionState)
    (localSchema : PipelineSchema) : Option PipelineSchema :=
  (incoming.snapshot.or
    ((s.pipelineRevisions.get incoming.pipelineID).filter fun rev =>
      c.pipelineSchemaHash rev = incoming.schemaHash)).or
    (if c.pipelineSchemaHash localSchema = incoming.schemaHash then some localSchema else none)

theorem resolveSnapshot_prepares (incoming : PipelineExecutionState)
    (localSchema : PipelineSchema) :
    (resolveSnapshot c incoming localSchema).Obeys (preparing c w s) fun o =>
      ∃ snapshot, o = some snapshot ∧ snapshot = resolvedSnapshot c s incoming localSchema := by
  unfold resolveSnapshot
  split
  next snapshot hsnapshot => exact ⟨_, rfl, by simp [resolvedSnapshot, hsnapshot]⟩
  rename_i hsnapshot
  refine prepare_read (fun s' hs' => by rw [hs'.revisions]) ?_
  split
  next rev hrev => exact ⟨_, rfl, by simp [resolvedSnapshot, hsnapshot, hrev]⟩
  rename_i hrev
  split
  next hhash => exact ⟨_, rfl, by simp [resolvedSnapshot, hsnapshot, hrev, hhash]⟩
  next hhash => exact ⟨_, rfl, by simp [resolvedSnapshot, hsnapshot, hrev, hhash]⟩

/-- The step before the current one is known to have run. -/
def HasProvenance (state : PipelineExecutionState) (schema : PipelineSchema) : Prop :=
  ∀ previous, 0 < state.currentStep → schema.stepAt (state.currentStep - 1) = some previous →
    state.producer previous.id ≠ ""

/-- The task a binding makes of a request and a state. -/
def boundRequest (t : TaskRequest) (state : PipelineExecutionState) : TaskRequest :=
  { t with pipelineState := some (state.ensureInitialProducer t.requesterNodeID) }

/-- The ways a binding of a request to a definition ends. -/
inductive BindResult (c : Node) (s : Engine) (t : TaskRequest) (localSchema : PipelineSchema) :
    Option Bound → Prop
  /-- A request without a state starts with the local definition. -/
  | fresh (hstate : t.pipelineState = none) :
      BindResult c s t localSchema (some ⟨.ok localSchema,
        { t with pipelineState := some (initialState c t.requesterNodeID localSchema) }, none⟩)
  /-- The definition the task is bound to is not the local one, or is not known. -/
  | refused {incoming : PipelineExecutionState} (err : GoError)
      (hstate : t.pipelineState = some incoming)
      (hrefused : incoming.pipelineID ≠ localSchema.id ∨
        resolvedSnapshot c s incoming localSchema = none) :
      BindResult c s t localSchema (some ⟨.error err, t, some incoming⟩)
  | panicked {incoming : PipelineExecutionState} {current : PipelineSchema}
      (hstate : t.pipelineState = some incoming) (hid : incoming.pipelineID = localSchema.id)
      (hcurrent : resolvedSnapshot c s incoming localSchema = some current)
      (hattempts : Attempts c incoming current localSchema)
      (hrange : OutOfRange incoming.currentStep) : BindResult c s t localSchema none
  /-- The current step is beyond the definition, or nobody is known to have run
  the step before it. -/
  | rejected {incoming state : PipelineExecutionState} {current schema : PipelineSchema}
      (err : GoError) (hstate : t.pipelineState = some incoming)
      (hid : incoming.pipelineID = localSchema.id)
      (hcurrent : resolvedSnapshot c s incoming localSchema = some current)
      (hmigration : MigrationResult c { incoming with snapshot := some current } current localSchema
        (some (schema, state)))
      (hrejected : ¬(state.currentStep ≤ schema.steps.length ∧ HasProvenance state schema)) :
      BindResult c s t localSchema
        (some ⟨.error err, { t with pipelineState := some state }, some state⟩)
  | bound {incoming state : PipelineExecutionState} {current schema : PipelineSchema}
      (hstate : t.pipelineState = some incoming) (hid : incoming.pipelineID = localSchema.id)
      (hcurrent : resolvedSnapshot c s incoming localSchema = some current)
      (hmigration : MigrationResult c { incoming with snapshot := some current } current localSchema
        (some (schema, state)))
      (hbounds : state.currentStep ≤ schema.steps.length)
      (hprovenance : HasProvenance state schema) :
      BindResult c s t localSchema (some ⟨.ok schema, boundRequest t state, some state⟩)

theorem exists_stepAt_pred {schema : PipelineSchema} {k : ℤ} (hpos : 0 < k)
    (hbounds : k ≤ schema.steps.length) : ∃ previous, schema.stepAt (k - 1) = some previous := by
  have hlt : (k - 1).toNat < schema.steps.length := by omega
  exact ⟨_, (if_pos (by omega)).trans (List.getElem?_eq_getElem hlt)⟩

theorem checkBound_prepares (t : TaskRequest) (schema : PipelineSchema)
    (state : PipelineExecutionState) :
    (checkBound t schema state).Obeys (preparing c w s) fun o =>
      ∃ bound, o = some bound ∧
        ((∃ err, bound = ⟨.error err, { t with pipelineState := some state }, some state⟩ ∧
            ¬(state.currentStep ≤ schema.steps.length ∧ HasProvenance state schema)) ∨
          (bound = ⟨.ok schema, boundRequest t state, some state⟩ ∧
            state.currentStep ≤ schema.steps.length ∧ HasProvenance state schema)) := by
  unfold checkBound
  split
  next hout => exact ⟨_, rfl, .inl ⟨_, rfl, fun h => absurd h.1 (by omega)⟩⟩
  rename_i hbounds
  split
  · rename_i hpositive
    obtain ⟨previous, hprevious⟩ := exists_stepAt_pred hpositive.1 (not_lt.1 hbounds)
    rw [hprevious]
    dsimp only
    split
    · rename_i hmissing
      exact ⟨_, rfl, .inl ⟨_, rfl, fun h => h.2 previous hpositive.1 hprevious hmissing⟩⟩
    · rename_i hproducer
      refine ⟨_, rfl, .inr ⟨rfl, not_lt.1 hbounds, fun other _ hother => ?_⟩⟩
      cases hprevious.symm.trans hother
      exact hproducer
  · rename_i hfirst
    refine ⟨_, rfl, .inr ⟨rfl, not_lt.1 hbounds, fun previous hpos hprevious => ?_⟩⟩
    have hnil : schema.steps = [] := by
      by_contra hsteps
      exact hfirst ⟨hpos, hsteps⟩
    simp [PipelineSchema.stepAt, hnil] at hprevious

theorem bindPipelineState_prepares (t : TaskRequest) (localSchema : PipelineSchema) :
    (bindPipelineState c t localSchema).Obeys (preparing c w s)
      (BindResult c s t localSchema) := by
  unfold bindPipelineState
  split
  next hstate => exact .fresh hstate
  rename_i incoming hstate
  split
  next hid => exact .refused _ hstate (.inl hid)
  rename_i hid
  refine prepare_bind (resolveSnapshot_prepares incoming localSchema) ?_
  rintro _ rfl
  split
  next hnone => exact .refused _ hstate (.inr hnone)
  rename_i current hcurrent
  refine Obeys.bind (tryDynamicSchemaMigration_prepares _ _ current localSchema) ?_ ?_
  · intro hmigration
    cases hmigration with
    | panicked hattempts hrange =>
      exact .panicked hstate (not_not.1 hid) hcurrent ⟨hattempts.id, hattempts.steps,
        hattempts.updated⟩ hrange
  · rintro ⟨schema, state⟩ hmigration
    refine (checkBound_prepares _ schema state).mono ?_
    rintro _ ⟨_, rfl, ⟨err, rfl, hrejected⟩ | ⟨rfl, hbounds, hprovenance⟩⟩
    · exact .rejected err hstate (not_not.1 hid) hcurrent hmigration hrejected
    · exact .bound hstate (not_not.1 hid) hcurrent hmigration hbounds hprovenance

/-- The request is about to migrate to a definition with an index that is no
capacity. -/
def BindPanics (c : Node) (s : Engine) (t : TaskRequest) (localSchema : PipelineSchema) : Prop :=
  ∃ incoming current, t.pipelineState = some incoming ∧ incoming.pipelineID = localSchema.id ∧
    resolvedSnapshot c s incoming localSchema = some current ∧
    Attempts c incoming current localSchema ∧ OutOfRange incoming.currentStep

theorem BindResult.panics (h : BindResult c s t localSchema none) :
    BindPanics c s t localSchema := by
  cases h with
  | panicked hstate hid hcurrent hattempts hrange =>
    exact ⟨_, _, hstate, hid, hcurrent, hattempts, hrange⟩

theorem BindResult.not_panics {bound : Bound} (h : BindResult c s t localSchema (some bound)) :
    ¬BindPanics c s t localSchema := by
  rintro ⟨incoming, current, hincoming, hid, hresolved, hattempts, hrange⟩
  -- a migration that ended is not one that had to panic
  have hmigration : ∀ {incoming' current' out}, t.pipelineState = some incoming' →
      resolvedSnapshot c s incoming' localSchema = some current' →
      ¬MigrationResult c { incoming' with snapshot := some current' } current' localSchema
        (some out) := by
    intro incoming' current' out hstate hcurrent hmigration
    cases hincoming.symm.trans hstate
    cases hresolved.symm.trans hcurrent
    cases hmigration with
    | kept _ hkept => exact hkept ⟨(attempts_snapshot _).2 hattempts, hrange⟩
    | adopted _ hadopted _ => exact hadopted hrange
  cases h with
  | fresh hstate => exact absurd (hincoming.symm.trans hstate) (by simp)
  | refused err hstate hrefused =>
    cases hincoming.symm.trans hstate
    rcases hrefused with hne | hnone
    · exact hne hid
    · cases hresolved.symm.trans hnone
  | rejected _ hstate _ hcurrent hresult | bound hstate _ hcurrent hresult =>
    exact hmigration hstate hcurrent hresult

/-- The error of a binding. -/
def Bound.error (bound : Bound) : Option GoError :=
  match bound.result with
  | .error err => some err
  | .ok _ => none

/-- The ways `bindPipelineTask` ends. -/
inductive TaskBindResult (c : Node) (s : Engine) (req : TaskRequest) :
    Option (Option GoError × TaskRequest × Option PipelineExecutionState) → Prop
  | plain (hschema : sentSchema s req.service req.pipelineState = none) :
      TaskBindResult c s req (some (none, req, req.pipelineState))
  | bound {schema : PipelineSchema} {o : Option Bound}
      (hschema : sentSchema s req.service req.pipelineState = some schema)
      (hresult : BindResult c s req schema o) :
      TaskBindResult c s req (o.map fun bound => (bound.error, bound.request, bound.shared))

theorem bindPipelineTask_prepares (req : TaskRequest) :
    (bindPipelineTask c req).Obeys (preparing c w s) (TaskBindResult c s req) := by
  refine registeredOrCarried_bind _ _ ?_
  split
  next hnone => exact .plain hnone
  rename_i schema hschema
  refine Obeys.bind (bindPipelineState_prepares req schema) ?_ ?_
  · exact fun hresult => .bound hschema hresult
  intro bound hresult
  have hbound := TaskBindResult.bound hschema hresult
  simp only [Bound.error, Option.map_some] at hbound
  split
  · rename_i err herr
    rwa [herr] at hbound
  · rename_i herr
    rwa [herr] at hbound

theorem BindResult.request_eq {bound : Bound} (h : BindResult c s t localSchema (some bound)) :
    bound.request = { t with pipelineState := bound.request.pipelineState } := by
  cases h <;> rfl

theorem TaskBindResult.request_eq {req req' : TaskRequest} {err : Option GoError}
    {shared : Option PipelineExecutionState} (h : TaskBindResult c s req (some (err, req', shared))) :
    req' = { req with pipelineState := req'.pipelineState } := by
  generalize hout : some (err, req', shared) = o at h
  cases h with
  | plain =>
    cases hout
    rfl
  | bound hschema hresult =>
    obtain ⟨bound, rfl, hbound⟩ := Option.map_eq_some_iff.1 hout.symm
    cases hbound
    exact hresult.request_eq

/-- What a binding does with a state does not depend on the selected targets. -/
theorem BindPanics.retarget {t' : TaskRequest}
    (hrevisions : s'.pipelineRevisions = s.pipelineRevisions)
    (hstates : ∀ state', t'.pipelineState = some state' →
      ∃ state, t.pipelineState = some state ∧ Retargeted state state')
    (h : BindPanics c s' t' localSchema) : BindPanics c s t localSchema := by
  obtain ⟨incoming, current, hincoming, hid, hresolved, ⟨hids, hsteps, hupdated⟩, hrange⟩ := h
  obtain ⟨state, hstate, hretargeted⟩ := hstates incoming hincoming
  rw [hretargeted] at hid hresolved hupdated hrange
  refine ⟨state, current, hstate, hid, ?_, ⟨hids, hsteps, hupdated⟩, hrange⟩
  simpa [resolvedSnapshot, hrevisions] using hresolved

/-! ## Targets -/

/-- The step that the sending side of a request looks up. -/
def sentStep (s : Engine) (req : TaskRequest) : Option PipelineStep :=
  req.pipelineState.bind fun state =>
    (sentSchema s req.service req.pipelineState).bind fun schema => schema.stepAt state.currentStep

/-- The request after its step has been pinned to a node. -/
inductive PinResult (s : Engine) (req : TaskRequest) (target : String) : TaskRequest → Prop
  | plain (hplain : ∀ state, req.pipelineState = some state →
      sentSchema s req.service req.pipelineState = none) : PinResult s req target req
  | pinned {state : PipelineExecutionState} {step : PipelineStep}
      (hstate : req.pipelineState = some state) (hstep : sentStep s req = some step)
      (htarget : target ≠ "") :
      PinResult s req target { req with pipelineState := some (state.setTarget step.id target) }

theorem bindPipelineStepTarget_prepares (req : TaskRequest) (target : String) :
    (bindPipelineStepTarget req target).Obeys (preparing c w s) fun o =>
      ∃ out, o = some out ∧ (out.1 = none → PinResult s req target out.2) ∧
        (out.1 ≠ none → out.2 = req) := by
  unfold bindPipelineStepTarget
  split
  · rename_i hnone
    refine ⟨_, rfl, fun _ => .plain fun state hstate => ?_, fun h => absurd rfl h⟩
    cases hnone.symm.trans hstate
  rename_i state hstate
  refine registeredOrCarried_bind _ _ ?_
  split
  next hnone => exact ⟨_, rfl, fun _ => .plain fun _ _ => hnone, fun h => absurd rfl h⟩
  rename_i schema hschema
  split
  · exact ⟨_, rfl, by simp, fun _ => rfl⟩
  rename_i step hstep
  split
  · exact ⟨_, rfl, by simp, fun _ => rfl⟩
  rename_i htarget
  split
  · exact ⟨_, rfl, by simp, fun _ => rfl⟩
  refine ⟨_, rfl, fun _ => .pinned hstate ?_ htarget, fun h => absurd rfl h⟩
  rwa [sentStep, hschema, hstate]

end Proxyma.Compute
