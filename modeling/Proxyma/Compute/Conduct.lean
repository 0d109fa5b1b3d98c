import Proxyma.Compute.Asking

/-!
# What the calls of an engine pass on

Every call of the engine takes requests, definitions and escrow entries from the
state of its node and passes them on, changed.  A `Conduct` says what is required of
these values, what may be done with them and what that costs, and it lists the laws
that the changes of the source have to keep.  What is required of a request may
depend on how much there is left to spend on it.

Each lemma below is about one call and says that on all its paths the actions are
allowed and paid for, and that the values it returns are again as they should be.
A call that is `Still` costs nothing; `Runs` is about the others.  The laws come in
three stages: a `Charter` is enough to take a request into escrow, `Tenets` to bind a
request and to queue it, and the rest of the engine needs a `Conduct`.
-/

namespace Proxyma.Compute

open Keyed Atomic Atomic.Call GoError

/-! ## States -/

/-- Only the producers change when an initial one is filled in. -/
theorem ensureInitialProducer_eq (state : PipelineExecutionState) (nodeID : String) :
    ∃ producers, state.ensureInitialProducer nodeID =
      { state with outputProducers := producers } := by
  unfold PipelineExecutionState.ensureInitialProducer
  dsimp only
  split_ifs
  · exact ⟨_, rfl⟩
  · exact ⟨_, rfl⟩

@[simp] theorem snapshot_ensureInitialProducer (state : PipelineExecutionState) (nodeID : String) :
    (state.ensureInitialProducer nodeID).snapshot = state.snapshot := by
  obtain ⟨producers, heq⟩ := ensureInitialProducer_eq state nodeID
  rw [heq]

@[simp] theorem currentStep_ensureInitialProducer (state : PipelineExecutionState)
    (nodeID : String) :
    (state.ensureInitialProducer nodeID).currentStep = state.currentStep := by
  obtain ⟨producers, heq⟩ := ensureInitialProducer_eq state nodeID
  rw [heq]

/-! ## Charters -/

/-- The actions that take or pass on neither a task nor a definition. -/
def Action.plain : {β : Type} → Action β → Bool
  | _, .enqueue _ => false
  | _, .dequeue => false
  | _, .putEscrow _ => false
  | _, .takeEscrow _ => false
  | _, .applyPipelineRevision _ => false
  | _, .submitToPeer _ _ => false
  | _, .sendTaskEscrow _ _ => false
  | _, .execute _ _ _ _ _ => false
  | _, .checkpoint _ => false
  | _, _ => true

/-- What may be done, what it costs, and whether a call may panic. -/
structure Charter where
  rules : Rules Action
  prices : Prices Action
  panics : Prop
  plain : ∀ {β : Type} {e : Action β}, e.plain = true →
    rules.allowed e ∧ prices.cost e = 0 ∧ ∀ b, prices.gain e b = 0

namespace Charter

variable (D : Charter)

/-- An action that is allowed and costs nothing. -/
def Silent {β : Type} (e : Action β) : Prop :=
  D.rules.allowed e ∧ D.prices.cost e = 0 ∧ ∀ b, D.prices.gain e b = 0

/-- The rules of calls that cost nothing. -/
def quiet : Rules Action := ⟨D.Silent, D.rules.answers⟩

/-- A call that costs nothing, and returns something that satisfies `ok`. -/
def Still {α : Type} (ok : α → Prop) (p : Call Action α) : Prop :=
  p.Obeys D.quiet fun o => o.elim D.panics ok

/-- A call that starts with `n` to spend; `ok` is about what it returns and about what
is left. -/
def Runs {α : Type} (ok : α → ℕ → Prop) (n : ℕ) (p : Call Action α) : Prop :=
  p.prog.Pays D.rules D.prices (fun o m => o.elim D.panics fun a => ok a m) n

/-- The same, whatever it returns. -/
abbrev Affords {α : Type} (n : ℕ) (p : Call Action α) : Prop := D.Runs (fun _ _ => True) n p

variable {D} {α β : Type} {n : ℕ}

section Still

variable {ok : α → Prop} {p : Call Action α} {g : α → Call Action β} {e : Action α}

theorem still_perform (he : D.Silent e) : D.Still (fun _ => True) (perform e) :=
  obeys_perform he fun _ _ => trivial

theorem Still.bind {post : β → Prop} (hp : D.Still ok p)
    (hg : ∀ a, ok a → D.Still post (g a)) : D.Still post (p >>= g) :=
  Obeys.bind hp id hg

theorem still_perform_bind {post : β → Prop} (he : D.Silent e) (hg : ∀ a, D.Still post (g a)) :
    D.Still post (perform e >>= g) :=
  (still_perform he).bind fun a _ => hg a

theorem still_of_asks (hp : Asks ok p) : D.Still ok p := by
  have hplain : ∀ {γ : Type} (e : Action γ), e.asks = true → e.plain = true := by
    intro γ e he
    cases e <;> first | rfl | exact absurd he (by simp [Action.asks])
  refine Obeys.mono (Obeys.weaken hp (fun e he => D.plain (hplain e he)) fun _ _ _ => trivial) ?_
  rintro _ ⟨a, rfl, ha⟩
  exact ha

variable {post : β → ℕ → Prop}

/-- After a call that costs nothing there is as much to spend as before. -/
theorem Still.then (hp : D.Still ok p) (hg : ∀ a, ok a → D.Runs post n (g a)) :
    D.Runs post n (p >>= g) := by
  refine Prog.Pays.bind (Prog.Obeys.pays hp (fun _ => id) fun _ _ => id) ?_
  rintro (_ | a) m ⟨ha, rfl⟩
  · exact ha
  · exact hg a ha

theorem Runs.affords {ok : α → ℕ → Prop} (hp : D.Runs ok n p) : D.Affords n p := by
  refine Prog.Pays.mono hp ?_
  rintro (_ | a) m ha
  · exact ha
  · trivial

theorem Still.affords (hp : D.Still ok p) : D.Affords n p := by
  refine Prog.Pays.mono (Prog.Obeys.pays hp (fun _ => id) fun _ _ => id) ?_
  rintro (_ | a) m ⟨ha, -⟩
  · exact ha
  · trivial

theorem runs_plain_bind (he : e.plain = true) (hg : ∀ a, D.Runs post n (g a)) :
    D.Runs post n (perform e >>= g) :=
  (still_perform (D.plain he)).then fun a _ => hg a

theorem runs_perform_bind (he : D.rules.allowed e) (hcost : D.prices.cost e ≤ n)
    (hg : ∀ b, D.rules.answers e b → D.Runs post (n - D.prices.cost e + D.prices.gain e b) (g b)) :
    D.Runs post n (perform e >>= g) :=
  ⟨he, hcost, hg⟩

theorem Runs.bind {ok : α → ℕ → Prop} (hp : D.Runs ok n p)
    (hg : ∀ a m, ok a m → D.Runs post m (g a)) : D.Runs post n (p >>= g) := by
  refine Prog.Pays.bind hp ?_
  rintro (_ | a) m ha
  · exact ha
  · exact hg a m ha

theorem Runs.obeys {ok : α → ℕ → Prop} (hp : D.Runs ok n p) :
    p.Obeys D.rules fun o => o = none → D.panics := by
  refine Prog.Obeys.mono (Prog.Pays.obeys hp) (fun _ => id) (fun _ _ => id) ?_
  rintro _ ⟨m, ha⟩ rfl
  exact ha

end Still

/-- Rules under which nothing costs anything. -/
def gratis (r : Rules Action) (panics : Prop)
    (plain : ∀ {β : Type} {e : Action β}, e.plain = true → r.allowed e) : Charter where
  rules := r
  prices := ⟨fun _ => 0, fun _ _ => 0⟩
  panics := panics
  plain he := ⟨plain he, rfl, fun _ => rfl⟩

theorem setTaskStatus_still (response : ServiceTaskResponse) :
    D.Still (fun _ => True) (setTaskStatus response) :=
  still_perform_bind (D.plain rfl) fun _ => still_perform (D.plain rfl)

/-- What there was to spend is still there if there is an error. -/
def Refunds (n : ℕ) (err : Option GoError) (m : ℕ) : Prop := err ≠ none → n ≤ m

variable (D) in
/-- An action that hands a task on, and costs nothing if it fails. -/
structure Hands (n : ℕ) (e : Action (Option GoError)) : Prop where
  allowed : D.rules.allowed e
  cost : D.prices.cost e ≤ n
  refunds : ∀ err, n ≤ n - D.prices.cost e + D.prices.gain e (some err)

theorem Hands.runs {e : Action (Option GoError)} (he : D.Hands n e) :
    D.Runs (Refunds n) n (perform e) := by
  refine ⟨he.allowed, he.cost, fun answer _ herr => ?_⟩
  obtain ⟨err, rfl⟩ := Option.ne_none_iff_exists'.1 herr
  exact he.refunds err

variable (D) in
/-- A request may go into the escrow table of a node. -/
def Lodges (c : Node) (n : ℕ) (req : TaskEscrowRequest) : Prop :=
  ∀ timestamp producerNodeID,
    let e := { req with timestamp, producerNodeID, requesterNodeID := c.nodeID }
    D.Silent (.checkpoint { checkpointFromEscrow e "escrow" producerNodeID with timestamp }) ∧
      D.rules.allowed (.putEscrow e) ∧ D.prices.cost (.putEscrow e) ≤ n

theorem putTaskInEscrow_runs {c : Node} {req : TaskEscrowRequest} (hreq : D.Lodges c n req)
    (howned : req.requesterNodeID = "" ∨ req.requesterNodeID = c.nodeID) :
    D.Affords n (putTaskInEscrow c req) := by
  unfold putTaskInEscrow
  split
  · exact trivial
  refine runs_plain_bind rfl fun now => ?_
  have hrequester : (if req.requesterNodeID = "" then c.nodeID else req.requesterNodeID) =
      c.nodeID := by
    rcases howned with howned | howned <;> simp [howned]
  rw [hrequester]
  generalize (if req.timestamp = 0 then now else req.timestamp) = timestamp
  obtain ⟨hjournal, hallowed, hcost⟩ := hreq timestamp req.producerNodeID
  refine runs_plain_bind rfl fun existing => Still.then (?_ : D.Still (fun _ => True) _) ?_
  · split
    · exact still_perform hjournal
    · exact trivial
  · intro err _
    split
    · exact trivial
    · refine runs_perform_bind hallowed hcost fun _ _ => ?_
      exact (setTaskStatus_still _).then fun _ _ => trivial

theorem handleServiceEscrow_runs {c : Node} (producerNodeID : String) {req : TaskEscrowRequest}
    (hreq : req.requesterNodeID = "" ∨ req.requesterNodeID = c.nodeID → D.Lodges c n req) :
    D.Affords n (handleServiceEscrow c producerNodeID req) := by
  unfold handleServiceEscrow
  split
  · exact trivial
  split
  · exact trivial
  rename_i howned
  refine runs_plain_bind rfl fun refusal => ?_
  split
  · exact trivial
  · have howned' : req.requesterNodeID = "" ∨ req.requesterNodeID = c.nodeID := by tauto
    refine putTaskInEscrow_runs (fun timestamp producer => hreq howned' timestamp producer) ?_
    rcases howned' with h | h <;> simp [h]

end Charter

/-! ## Tenets -/

/-- A request of its owner whose execution state, if it has one, is as it should
be. -/
structure Fine (owns : String → String → Prop) (flows : String → PipelineExecutionState → Prop)
    (t : TaskRequest) : Prop where
  owns : owns t.taskID t.requesterNodeID
  flows : ∀ state, t.pipelineState = some state → flows t.taskID state

/-- A checkpoint that can be restored from. -/
structure Journaled (owns : String → String → Prop)
    (flows : String → PipelineExecutionState → Prop) (record : Storage.TaskJournalRecord) :
    Prop where
  flows : ∀ state, record.pipelineState = some state → flows record.taskID state
  escrow : record.status = "escrow" →
    owns record.taskID record.requesterNodeID ∧ record.pipelineState.isSome
  owns : record.requesterNodeID = "" ∨ owns record.taskID record.requesterNodeID

/-- What is required of the values in flight when there is `n` left to spend: which
nodes may speak for a task, whether it may be started, what its execution states are,
and which definitions there are. -/
structure Terms where
  owns : String → String → Prop
  fresh : ℕ → String → Prop
  flows : ℕ → String → PipelineExecutionState → Prop
  schema : PipelineSchema → Prop

/-- The state that a task is passed on with; it may have none before it is bound. -/
structure Terms.Apt (v : Terms) (n : ℕ) (id : String) (state : Option PipelineExecutionState) :
    Prop where
  none : state = none → v.fresh n id
  some : ∀ st, state = some st → v.flows n id st

variable {id : String} {localSchema : PipelineSchema} {req' : TaskRequest} {step : PipelineStep}

theorem Terms.apt_some {v : Terms} {n : ℕ} {state : PipelineExecutionState} (h : v.flows n id state)
    : v.Apt n id (some state) := by
  refine ⟨fun hnone => (by cases hnone), ?_⟩
  rintro _ ⟨⟩
  exact h

/-- A request that may be passed on. -/
structure Terms.Good (v : Terms) (n : ℕ) (t : TaskRequest) : Prop where
  owns : v.owns t.taskID t.requesterNodeID
  state : v.Apt n t.taskID t.pipelineState

/-- What the calls need that bind a request and queue it. -/
structure Tenets (c : Node) extends Charter, Terms where
  registered : ∀ {id S}, rules.answers (.read fun s => s.pipelines.get id) (some S) → schema S
  revision : ∀ {id S},
    rules.answers (.read fun s => s.pipelineRevisions.get id) (some S) → schema S
  raise : ∀ {n m : ℕ}, n ≤ m →
    (∀ {id}, fresh n id → fresh m id) ∧ ∀ {id state}, flows n id state → flows m id state
  anonymous : ∀ {id} nodeID, owns id "" → owns id nodeID
  carried : ∀ {n id state S}, flows n id state → state.snapshot = some S → schema S
  initial : ∀ {n id requester S}, owns id requester → fresh n id → schema S →
    flows n id (initialState c requester S)
  resolved : ∀ {n id state S}, flows n id state → state.snapshot = none → schema S →
    flows n id { state with snapshot := some S }
  adopted : ∀ {n id state current target}, flows n id state → state.snapshot = some current →
    schema target → target.steps ≠ [] → 0 ≤ state.currentStep →
    validatePrefixMigration (completedSteps state current) state.outputs current target = none →
    flows n id (adopt c state target)
  retargeted : ∀ {n id state state'}, flows n id state → Retargeted state state' →
    flows n id state'
  produced : ∀ {n id state requester}, owns id requester → flows n id state →
    flows n id (state.ensureInitialProducer requester)
  inRange : ∀ {n id state}, flows n id state → panics ∨
    (0 ≤ state.currentStep ∧ state.currentStep ≤ maxStringSlice ∧
      ∀ S, state.snapshot = some S → state.currentStep ≤ S.steps.length)
  journals : ∀ {n record}, Journaled owns (flows n) record → toCharter.Silent (.checkpoint record)
  enqueues : ∀ {n req}, toTerms.Good n req → toCharter.Hands n (.enqueue req)

namespace Tenets

open Charter Terms

variable {c : Node} {D : Tenets c} {n m : ℕ}
variable {t req : TaskRequest} {state : PipelineExecutionState}

theorem good_raise (ht : D.Good n t) (hnm : n ≤ m) : D.Good m t :=
  ⟨ht.owns, fun hnone => (D.raise hnm).1 (ht.state.none hnone),
    fun st hst => (D.raise hnm).2 (ht.state.some st hst)⟩

/-! ### Lookups -/

theorem getPipeline_still (id : String) :
    D.Still (fun o => ∀ S, o = some S → D.schema S) (getPipeline id) :=
  obeys_perform (D.plain rfl) fun _ hanswer _ hS => D.registered (hS ▸ hanswer)

theorem carried_of_apt {state : Option PipelineExecutionState} (h : D.Apt n id state) :
    ∀ S, state.bind PipelineExecutionState.snapshot = some S → D.schema S := by
  intro S hS
  obtain ⟨st, hst, hsnapshot⟩ := Option.bind_eq_some_iff.1 hS
  exact D.carried (h.some st hst) hsnapshot

theorem registeredOrCarried_still (service : String) {state : Option PipelineExecutionState}
    (hcarried : ∀ S, state.bind PipelineExecutionState.snapshot = some S → D.schema S) :
    D.Still (fun o => ∀ S, o = some S → D.schema S) (registeredOrCarried service state) := by
  refine (getPipeline_still service).bind fun registered hregistered S hS => ?_
  cases registered with
  | some R => exact hregistered S hS
  | none => exact hcarried S hS

/-! ### Binding -/

/-- A checkpoint made of a request, with a state of the same task. -/
theorem journals_checkpointFromTask {record : Storage.TaskJournalRecord}
    (howns : D.owns t.taskID t.requesterNodeID) (hid : record.taskID = t.taskID)
    (hrequester : record.requesterNodeID = t.requesterNodeID)
    (hflows : ∀ state, record.pipelineState = some state → D.flows n t.taskID state)
    (hescrow : record.status = "escrow" → record.pipelineState.isSome) :
    D.Silent (.checkpoint record) := by
  refine D.journals (n := n) ⟨?_, fun h => ⟨?_, hescrow h⟩, .inr ?_⟩
  · rwa [hid]
  · rwa [hid, hrequester]
  · rwa [hid, hrequester]

theorem finishMigration_still (howns : D.owns t.taskID t.requesterNodeID) (fromVersion : ℤ)
    (target : PipelineSchema) (hstate : D.flows n t.taskID state) :
    D.Still (Retargeted state) (finishMigration c t fromVersion target state) := by
  refine (still_of_asks (selectUpcoming_asks _ _ state)).bind fun state' hstate' => ?_
  refine still_perform_bind (D.plain rfl) fun _ => still_perform_bind ?_ fun _ => hstate'
  refine journals_checkpointFromTask (n := n) howns rfl rfl ?_ fun _ => rfl
  rintro _ ⟨⟩
  exact D.retargeted hstate hstate'

/-- What a migration leaves: a state that carries the definition to go on with. -/
structure Migrated (D : Tenets c) (n : ℕ) (id : String) (state : PipelineExecutionState)
    (out : PipelineSchema × PipelineExecutionState) : Prop where
  flows : D.flows n id out.2
  snapshot : out.2.snapshot = some out.1
  currentStep : out.2.currentStep = state.currentStep

theorem tryDynamicSchemaMigration_still (howns : D.owns t.taskID t.requesterNodeID)
    {current target : PipelineSchema} (hstate : D.flows n t.taskID state)
    (hcurrent : state.snapshot = some current) (htarget : D.schema target) :
    D.Still (Migrated D n t.taskID state) (tryDynamicSchemaMigration c t state current target) := by
  have hkept : Migrated D n t.taskID state (current, state) := ⟨hstate, hcurrent, rfl⟩
  unfold tryDynamicSchemaMigration
  split
  · exact hkept
  rename_i hids
  split
  · exact hkept
  split
  · rename_i hrange
    rcases D.inRange hstate with hpanics | ⟨hlow, hhigh, -⟩
    · exact hpanics
    · exact absurd hrange (by omega)
  rename_i hrange
  split
  · exact hkept
  rename_i hvalid
  have hadopted : D.flows n t.taskID (adopt c state target) :=
    D.adopted hstate hcurrent htarget (fun h => hids (.inr h)) (by omega) hvalid
  refine (finishMigration_still howns _ target hadopted).bind fun state' hstate' => ?_
  refine ⟨D.retargeted hadopted hstate', ?_, ?_⟩
  · rw [hstate']
    rfl
  · rw [hstate']
    rfl

/-- What binding leaves. -/
structure BoundGood (D : Tenets c) (n : ℕ) (id : String) (bound : Bound) : Prop where
  request : D.Good n bound.request
  shared : D.Apt n id bound.shared
  schema : ∀ S, bound.result = .ok S →
    ∃ state, bound.request.pipelineState = some state ∧ state.snapshot = some S

theorem checkBound_still (howns : D.owns t.taskID t.requesterNodeID) {execSchema : PipelineSchema}
    (hstate : D.flows n t.taskID state) (hsnapshot : state.snapshot = some execSchema) :
    D.Still (BoundGood D n t.taskID) (checkBound t execSchema state) := by
  have hfailed : ∀ err, BoundGood D n t.taskID
      ⟨.error err, { t with pipelineState := some state }, some state⟩ := fun err =>
    ⟨⟨howns, apt_some hstate⟩, apt_some hstate, fun _ h => (by cases h)⟩
  have hbound : BoundGood D n t.taskID ⟨.ok execSchema, { t with
      pipelineState := some (state.ensureInitialProducer t.requesterNodeID) }, some state⟩ := by
    refine ⟨⟨howns, apt_some (D.produced howns hstate)⟩, apt_some hstate, ?_⟩
    rintro _ ⟨⟩
    exact ⟨_, rfl, (snapshot_ensureInitialProducer _ _).trans hsnapshot⟩
  unfold checkBound
  split
  · exact hfailed _
  rename_i hlength
  split
  · rename_i hpositive
    split
    · rename_i hnone
      -- the index of the previous step is in range
      exfalso
      rw [PipelineSchema.stepAt, if_pos (by omega)] at hnone
      have := List.getElem?_eq_none_iff.1 hnone
      omega
    · split
      · exact hfailed _
      · exact hbound
  · exact hbound

theorem resolveSnapshot_still {incoming : PipelineExecutionState}
    (hincoming : D.flows n id incoming) (hlocal : D.schema localSchema) :
    D.Still (fun o => ∀ S, o = some S → D.flows n id { incoming with snapshot := some S })
      (resolveSnapshot c incoming localSchema) := by
  unfold resolveSnapshot
  split
  · rename_i snapshot hsnapshot
    rintro _ ⟨⟩
    rwa [← hsnapshot]
  · rename_i hnone
    refine obeys_perform_bind (D.plain rfl) fun revision hrevision => ?_
    split
    · rename_i rev hrev
      rintro _ ⟨⟩
      have hfound := (Option.filter_eq_some_iff.1 hrev).1
      exact D.resolved hincoming hnone (D.revision (hfound ▸ hrevision))
    · split
      · rintro _ ⟨⟩
        exact D.resolved hincoming hnone hlocal
      · rintro _ ⟨⟩

theorem bindPipelineState_still (ht : D.Good n t) (hlocal : D.schema localSchema) :
    D.Still (BoundGood D n t.taskID) (bindPipelineState c t localSchema) := by
  unfold bindPipelineState
  split
  · rename_i hnone
    have hfresh := ht.state.none hnone
    refine ⟨⟨ht.owns, apt_some (D.initial ht.owns hfresh hlocal)⟩,
      ⟨fun _ => hfresh, fun _ h => (by cases h)⟩, ?_⟩
    rintro _ ⟨⟩
    exact ⟨_, rfl, rfl⟩
  · rename_i incoming hincoming
    have hflows := ht.state.some incoming hincoming
    have hunbound : ∀ err, BoundGood D n t.taskID ⟨.error err, t, some incoming⟩ :=
      fun err => ⟨ht, apt_some hflows, fun _ h => (by cases h)⟩
    split
    · exact hunbound _
    refine (resolveSnapshot_still hflows hlocal).bind fun current hcurrent => ?_
    split
    · exact hunbound _
    rename_i current
    have howns : D.owns t.taskID t.requesterNodeID := ht.owns
    refine (tryDynamicSchemaMigration_still howns (hcurrent current rfl) rfl hlocal).bind ?_
    rintro ⟨execSchema, state⟩ hmigrated
    exact checkBound_still howns hmigrated.flows hmigrated.snapshot

theorem bindPipelineTask_still (hreq : D.Good n req) :
    D.Still (fun out => D.Good n out.2.1 ∧ D.Apt n req.taskID out.2.2)
      (bindPipelineTask c req) := by
  refine (registeredOrCarried_still _ (carried_of_apt hreq.state)).bind fun schema hschema => ?_
  split
  · exact ⟨hreq, hreq.state⟩
  · rename_i S
    refine (bindPipelineState_still hreq (hschema S rfl)).bind fun bound hbound => ?_
    split <;> exact ⟨hbound.request, hbound.shared⟩

/-! ### Queueing -/

theorem admitTask_runs (hreq : D.Good n req) : D.Runs (Refunds n) n (admitTask req) := by
  have hkept : ∀ err, D.Runs (Refunds n) n (pure err : Call Action (Option GoError)) :=
    fun _ _ => le_rfl
  refine runs_plain_bind rfl fun closed => ?_
  split
  · exact hkept _
  refine runs_plain_bind rfl fun status => ?_
  split
  · split <;> exact hkept _
  refine runs_plain_bind rfl fun retired => ?_
  split
  · split <;> exact hkept _
  · exact (D.enqueues hreq).runs

theorem good_filled (hreq : D.Good n req) :
    D.Good n { req with
      requesterNodeID := if req.requesterNodeID = "" then c.nodeID else req.requesterNodeID } := by
  refine ⟨?_, hreq.state⟩
  split_ifs with hempty
  · exact D.anonymous _ (hempty ▸ hreq.owns)
  · exact hreq.owns

theorem submitTask_runs (hreq : D.Good n req) : D.Runs (Refunds n) n (submitTask c req) := by
  unfold submitTask
  split
  · exact fun _ => le_rfl
  dsimp only
  split
  · refine (bindPipelineTask_still (good_filled hreq)).then ?_
    rintro ⟨err, req', _⟩ ⟨hreq', -⟩
    cases err with
    | some err => exact fun _ => le_rfl
    | none => exact admitTask_runs hreq'
  · exact admitTask_runs (good_filled hreq)

theorem good_of_checkProvenance {submitterNodeID : String} {registered : Option PipelineSchema}
    (hreq : D.Good n req) (h : checkProvenance submitterNodeID registered req = .ok req') :
    D.Good n req' := by
  unfold checkProvenance at h
  split at h
  · split_ifs at h with hrequester
    obtain rfl := Except.ok.inj h
    refine ⟨?_, hreq.state⟩
    by_cases hempty : req.requesterNodeID = ""
    · exact D.anonymous _ (hempty ▸ hreq.owns)
    · exact not_not.1 (not_and.1 hrequester hempty) ▸ hreq.owns
  · dsimp only at h
    split_ifs at h
    exact Except.ok.inj h ▸ hreq

theorem handleServiceSubmit_runs (submitterNodeID : String) (hreq : D.Good n req) :
    D.Affords n (handleServiceSubmit c submitterNodeID req) := by
  refine (getPipeline_still _).then fun registered _ => ?_
  split
  · exact trivial
  rename_i req' hreq'
  refine (getPipeline_still _).then fun isPipeline _ =>
    Still.then (?_ : D.Still (fun _ => True) _) fun verdict _ => ?_
  · split
    · exact trivial
    · exact still_of_asks (validatePayload_asks _ _)
  · split
    · exact trivial
    · exact (submitTask_runs (good_of_checkProvenance hreq hreq')).affords

end Tenets

/-! ## Conducts -/

/-- What the other calls need: those that hand a task to a peer, run its steps, or
leave it in escrow. -/
structure Conduct (c : Node) extends Tenets c where
  entry : ℕ → TaskEscrowRequest → Prop
  single : ∀ service, schema (singleStep service)
  submits : ∀ {n peerID req}, toTerms.Good n req → toCharter.Hands n (.submitToPeer peerID req)
  allocated : ∀ {n id state}, flows n id state →
    flows n id { state with outputs := some (state.outputs.getD []) }
  executes : ∀ {n id state S step} payload, flows n id state → state.snapshot = some S →
    S.stepAt state.currentStep = some step →
    let e := Action.execute id step S state payload
    rules.allowed e ∧ prices.cost e ≤ n ∧ ∀ answer outputs,
      flows (n - prices.cost e + prices.gain e answer) id (recordStep c state step outputs)
  escalates : ∀ {n t} step stepIndex cause now, toTerms.Good n t → t.pipelineState.isSome →
    let req := escrowRequest c t step stepIndex cause now
    (∀ coordinator, toCharter.Silent (.sendTaskEscrow coordinator req)) ∧
      (coordinatorNodeID c t = c.nodeID ∨ coordinatorNodeID c t = "" → toCharter.Lodges c n req)
  raiseEntry : ∀ {n m : ℕ} {task}, n ≤ m → entry n task → entry m task
  puts : ∀ {n task}, entry n task →
    rules.allowed (.putEscrow task) ∧ prices.cost (.putEscrow task) ≤ n
  resumes : ∀ {n task S} stepIndex step target, entry n task → schema S →
    toTerms.Good n (resumeRequest c task S stepIndex step target)
  marks : ∀ {n task} stepID stepIndex, entry n task → toCharter.Silent (.checkpoint
    { checkpointFromEscrow task "running" c.nodeID with stepID, stepIndex })

namespace Conduct

open Charter Terms Tenets

variable {c : Node} {D : Conduct c} {n m : ℕ}
variable {req t : TaskRequest}

/-! ### Handing tasks on -/

theorem good_of_retargeted {state state' : PipelineExecutionState} (hreq : D.Good n req)
    (hstate : req.pipelineState = some state) (hretargeted : Retargeted state state') :
    D.Good n { req with pipelineState := some state' } :=
  ⟨hreq.owns, apt_some (D.retargeted (hreq.state.some state hstate) hretargeted)⟩

theorem good_filled_targets (hreq : D.Good n req) (h : FilledRequest req req') : D.Good n req' := by
  cases hstate : req.pipelineState with
  | none =>
    rwa [h.eq, h.none hstate, ← hstate]
  | some state =>
    obtain ⟨state', hstate', hfilled⟩ := h.some state hstate
    rw [h.eq, hstate']
    exact good_of_retargeted hreq hstate hfilled.retargeted

theorem good_pinned (hreq : D.Good n req) (h : Pinned req req') : D.Good n req' := by
  obtain rfl | ⟨state, stepID, target, hstate, rfl⟩ := h
  · exact hreq
  · exact good_of_retargeted hreq hstate (retargeted_setTarget _ _ _)

theorem good_setTarget (ht : D.Good n t) (stepID target : String) :
    D.Good n { t with
      pipelineState := t.pipelineState.map fun state => state.setTarget stepID target } := by
  cases hstate : t.pipelineState with
  | none =>
    rwa [Option.map_none, ← hstate]
  | some state => exact good_of_retargeted ht hstate (retargeted_setTarget _ _ _)

theorem registerOutgoingTask_still (hreq : D.Good n req) :
    D.Still (fun _ => True) (registerOutgoingTask req) := by
  unfold registerOutgoingTask
  split
  · exact still_perform (D.plain rfl)
  · exact (registeredOrCarried_still _ (carried_of_apt hreq.state)).bind fun _ _ =>
      still_perform (D.plain rfl)

theorem submitTrackedTask_runs (hreq : D.Good n req)
    {submit : TaskRequest → Call Action (Option GoError)}
    (hsubmit : ∀ req, D.Good n req → D.Runs (Refunds n) n (submit req)) :
    D.Runs (Refunds n) n (submitTrackedTask c req submit) := by
  refine (still_of_asks (preparePipelineTargets_asks req)).then ?_
  rintro ⟨err, req'⟩ hfilled
  have hreq' := good_filled_targets hreq hfilled
  cases err with
  | some err => exact fun _ => le_rfl
  | none =>
    refine (registerOutgoingTask_still hreq').then fun _ _ => ?_
    refine (hsubmit req' hreq').bind fun answer m hrefunds => ?_
    cases answer with
    | none => exact fun h => absurd rfl h
    | some err => exact (setTaskStatus_still _).then fun _ _ _ => hrefunds (by simp)

theorem sendTask_runs (targetPeerID : String) (hreq : D.Good n req) :
    D.Runs (fun out => Refunds n out.1) n (sendTask c targetPeerID req) := by
  refine (still_of_asks (bindPipelineStepTarget_asks req targetPeerID)).then ?_
  rintro ⟨err, req'⟩ hpinned
  have hreq' := good_pinned hreq hpinned
  rcases err with _ | err
  swap
  · exact fun _ => le_rfl
  refine runs_plain_bind rfl ?_
  rintro ⟨err, payload⟩
  cases err with
  | some err => exact fun _ => le_rfl
  | none =>
    have hreq'' : D.Good n { req' with payload := payload } := ⟨hreq'.owns, hreq'.state⟩
    refine (still_of_asks (verifyContinuation_asks targetPeerID _)).then fun verdict _ => ?_
    split
    · exact fun _ => le_rfl
    · refine Runs.bind (?_ : D.Runs (Refunds n) n _) fun _ _ hrefunds => hrefunds
      split
      · exact (D.submits hreq'').runs
      · exact submitTrackedTask_runs hreq'' fun _ hprepared => (D.submits hprepared).runs

/-- A request that could not be handed over may be passed on again, and nothing has
been spent. -/
def Tried (D : Conduct c) (n : ℕ) (out : Option GoError × TaskRequest) (m : ℕ) : Prop :=
  out.1 ≠ none → n ≤ m ∧ D.Good m out.2

theorem dispatchTask_runs (targetPeerID : String) {caller : TaskRequest}
    (hcaller : D.Good n caller) :
    D.Runs (Tried D n) n (dispatchTask c targetPeerID caller) := by
  have hfilled := good_filled hcaller
  refine Still.then (bindPipelineTask_still ⟨hfilled.owns, hfilled.state⟩) ?_
  rintro ⟨err, req, shared⟩ ⟨hreq, hshared⟩
  cases err with
  | some err => exact fun _ => ⟨le_rfl, hcaller.owns, hshared⟩
  | none =>
    refine (sendTask_runs targetPeerID hreq).bind fun out m hrefunds herr => ?_
    exact ⟨hrefunds herr, good_raise ⟨hcaller.owns, hshared⟩ (hrefunds herr)⟩

theorem localServiceRun_runs (hreq : D.Good n req) (targetPeerID : String) :
    D.Affords n (localServiceRun c req targetPeerID) := by
  refine Still.then (bindPipelineTask_still ⟨hreq.owns, hreq.state⟩) ?_
  rintro ⟨err, req', _⟩ ⟨hreq', -⟩
  cases err with
  | some err => exact trivial
  | none =>
    dsimp only
    split
    · exact (submitTrackedTask_runs hreq' fun _ => submitTask_runs).bind fun _ _ _ => trivial
    · exact (dispatchTask_runs targetPeerID hreq').bind fun _ _ _ => trivial

/-! ### Routing -/

theorem sendPipelineError_still (ht : D.Good n t) (err : GoError) :
    D.Still (fun _ => True) (sendPipelineError c t err) := by
  refine still_perform_bind ?_ fun _ => (setTaskStatus_still _).bind fun _ _ => ?_
  · refine journals_checkpointFromTask ht.owns rfl rfl ht.state.some ?_
    exact fun h => absurd h (by simp [checkpointFromTask])
  · split
    · exact still_perform (D.plain rfl)
    · exact trivial

theorem escalateToEscrow_runs (ht : D.Good n t) (hsome : t.pipelineState.isSome)
    (step : PipelineStep) (stepIndex : ℤ) (cause : GoError) :
    D.Affords n (escalateToEscrow c t step stepIndex cause) := by
  refine runs_plain_bind rfl fun now => ?_
  obtain ⟨hsends, hlodges⟩ := D.escalates step stepIndex cause now ht hsome
  split
  · rename_i howner
    exact runs_plain_bind rfl fun _ => putTaskInEscrow_runs (hlodges howner) howner.symm
  refine Still.then (?_ : D.Still (fun _ => True) _) fun err _ => ?_
  · unfold sendEscrow
    split
    · exact still_perform_bind (hsends _) fun _ => trivial
    split
    · exact still_perform_bind (hsends _) fun _ => trivial
    · exact trivial
  · split
    · exact trivial
    · refine runs_plain_bind rfl fun _ => (setTaskStatus_still _).then fun _ _ => ?_
      refine (still_perform ?_).then fun _ _ => trivial
      exact journals_checkpointFromTask ht.owns rfl rfl ht.state.some fun _ => hsome

theorem attempt_runs (ht : D.Good n t) (step : PipelineStep) (target : String) :
    D.Runs (Tried D n) n (attempt c t step target) := by
  have htargeted : ∀ target, D.Good n (targeted t step target) := fun target =>
    ⟨ht.owns, (good_setTarget ht step.id target).state⟩
  unfold attempt
  split
  · refine runs_plain_bind rfl fun _ => ?_
    refine (submitTask_runs (htargeted c.nodeID)).bind fun err m hrefunds herr => ?_
    exact ⟨hrefunds herr, good_raise (htargeted c.nodeID) (hrefunds herr)⟩
  · refine (dispatchTask_runs target (htargeted target)).bind ?_
    rintro ⟨err, t'⟩ m htried
    cases err with
    | some err => exact htried
    | none => exact runs_plain_bind rfl fun _ h => absurd rfl h

/-- What the rounds of a failover leave of the request. -/
def RoundsLeave (D : Conduct c) : Dispatched → ℕ → Prop
  | .handed, _ => True
  | .unconfigured t, m => D.Good m t
  | .exhausted t, m => D.Good m t

theorem failover_runs (step : PipelineStep) (stepIndex : ℤ) (rounds : ℕ)
    (triedPeers : List String) (target : String) (ht : D.Good n t) :
    D.Runs (RoundsLeave D) n (failover c step stepIndex rounds triedPeers target t) := by
  induction rounds generalizing n triedPeers target t with
  | zero => exact ht
  | succ rounds ih =>
    unfold failover
    split
    · exact ht
    refine (attempt_runs ht step target).bind ?_
    rintro ⟨err, t'⟩ m htried
    rcases err with _ | err
    · exact trivial
    have ht' : D.Good m t' := (htried (by simp)).2
    refine (still_of_asks (findAlternative_asks _ _ _)).then fun altTarget _ => ?_
    split
    · exact ht'
    · exact runs_plain_bind rfl fun _ => ih _ _ ht'

/-- What routing leaves of the request. -/
def RoutedGood (D : Conduct c) : Routed → ℕ → Prop
  | .failed t _, _ => ∃ n, D.Good n t
  | _, _ => True

theorem escalateOr_runs (ht : D.Good n t) (step : PipelineStep) (stepIndex : ℤ) (err : GoError) :
    D.Runs (RoutedGood D) n (escalateOr c t step stepIndex err) := by
  unfold escalateOr
  split
  · rename_i hmay
    have hsome : t.pipelineState.isSome := (of_decide_eq_true hmay).2.1
    refine (escalateToEscrow_runs ht hsome step stepIndex err).bind fun answer _ _ => ?_
    cases answer with
    | none => exact trivial
    | some err => exact ⟨n, ht⟩
  · exact ⟨n, ht⟩

theorem finishRoute_still {routed : Routed} (hrouted : RoutedGood D routed m) :
    D.Still (fun _ => True) (finishRoute c routed) := by
  cases routed with
  | handed | escrowed => exact trivial
  | failed t err =>
    obtain ⟨n, ht⟩ := hrouted
    exact sendPipelineError_still ht err

theorem routeTo_runs (ht : D.Good n t) (step : PipelineStep) (stepIndex : ℤ) (targetPeer : String) :
    D.Affords n (routeTo c t step stepIndex targetPeer) := by
  have hdispatched : D.Runs (RoutedGood D) n
      (dispatchStepWithFailover c t step targetPeer stepIndex) := by
    refine (still_of_asks (delegateTo_asks _ _)).then fun _ _ => ?_
    refine (failover_runs step stepIndex 3 [] targetPeer ht).bind fun dispatched m h => ?_
    cases dispatched with
    | handed => exact trivial
    | unconfigured t' => exact ⟨m, h⟩
    | exhausted t' => exact escalateOr_runs h step stepIndex _
  refine (still_of_asks (delegateTo_asks _ _)).then fun _ _ => ?_
  exact hdispatched.bind fun _ _ hrouted => (finishRoute_still hrouted).affords

theorem routePipelineStep_runs (ht : D.Good n t) (step : PipelineStep) :
    D.Affords n (routePipelineStep c t step) := by
  unfold routePipelineStep
  dsimp only
  split
  · exact routeTo_runs ht step _ _
  have hchoose : ∀ targetPeer, D.Affords n (routeTo c { t with
      pipelineState := t.pipelineState.map fun state => state.setTarget step.id targetPeer }
      step ((t.pipelineState.map PipelineExecutionState.currentStep).getD 0)
      targetPeer) := fun targetPeer =>
    routeTo_runs (good_setTarget ht step.id targetPeer) step _ _
  refine (still_of_asks (selectPipelineStepTarget_asks step _)).then fun answer _ => ?_
  split
  · exact hchoose _
  refine runs_plain_bind rfl fun localSupports => ?_
  split
  · exact hchoose c.nodeID
  · exact (escalateOr_runs ht step _ _).bind fun _ _ hrouted =>
      (finishRoute_still hrouted).affords

/-! ### Running steps -/

section Running

variable {t : TaskRequest} {state : PipelineExecutionState} {schema : PipelineSchema}

theorem completePipeline_still (ht : D.Good n t) (hstate : D.flows n t.taskID state)
    (finalStepID : String) : D.Still (fun _ => True) (completePipeline c t state finalStepID) := by
  refine (still_of_asks (stageOutputBlobs_asks _)).bind ?_
  rintro ⟨err, staged⟩ -
  cases err with
  | some err => exact sendPipelineError_still ht _
  | none =>
    refine still_perform_bind ?_ fun _ => (setTaskStatus_still _).bind fun _ _ => ?_
    · exact journals_checkpointFromTask ht.owns rfl rfl (apt_some hstate).some fun _ => rfl
    · split
      · exact still_perform (D.plain rfl)
      · exact trivial

theorem continuePipeline_runs (howns : D.owns t.taskID t.requesterNodeID)
    (hstate : D.flows n t.taskID state) (hsnapshot : state.snapshot = some schema)
    (hpositive : 0 < state.currentStep) :
    D.Affords n (continuePipeline c t schema state) := by
  have ht : D.Good n { t with pipelineState := some state } := ⟨howns, apt_some hstate⟩
  unfold continuePipeline
  split
  · rename_i hlt
    split
    · rename_i hnone
      exfalso
      rw [PipelineSchema.stepAt, if_pos hpositive.le] at hnone
      have := List.getElem?_eq_none_iff.1 hnone
      omega
    · exact routePipelineStep_runs ht _
  · split
    · rename_i hnone
      rcases D.inRange hstate with hpanics | ⟨-, -, hle⟩
      · exact hpanics
      · have hbound := hle schema hsnapshot
        rw [List.getLast?_eq_none_iff.1 hnone] at hbound
        exact absurd hbound (by simp; omega)
    · exact (completePipeline_still ht hstate _).affords

theorem advancePipeline_runs (howns : D.owns t.taskID t.requesterNodeID)
    (hstate : D.flows n t.taskID state) (hsnapshot : state.snapshot = some schema)
    (hpositive : 0 < state.currentStep) :
    D.Affords n (advancePipeline c t schema state) := by
  refine (getPipeline_still _).then fun latest hlatest => ?_
  rcases latest with _ | L
  · exact continuePipeline_runs howns hstate hsnapshot hpositive
  have howns' : D.owns t.taskID t.requesterNodeID := howns
  refine (tryDynamicSchemaMigration_still howns' hstate hsnapshot (hlatest L rfl)).then ?_
  rintro ⟨schema', state'⟩ hmigrated
  refine continuePipeline_runs howns hmigrated.flows hmigrated.snapshot ?_
  rwa [hmigrated.currentStep]

/-- With what running a step leaves over, its outputs are recorded. -/
theorem runStep_runs (hstate : D.flows n t.taskID state) (hsnapshot : state.snapshot = some schema)
    (hstep : schema.stepAt state.currentStep = some step) :
    D.Runs (fun result m => ∀ outputs, result = .ok outputs →
      D.flows m t.taskID (recordStep c state step outputs)) n (runStep c t schema state step) := by
  refine Still.then (?_ : D.Still (fun _ => True) _) fun resolved _ => ?_
  · split
    · exact still_of_asks (resolveInputs_asks t step _ _ _)
    · exact trivial
  split
  · exact fun _ h => (by cases h)
  refine (still_of_asks (validatePayload_asks _ _)).then fun verdict _ => ?_
  split
  · exact fun _ h => (by cases h)
  rename_i payload _ _
  obtain ⟨hallowed, hcost, hrecorded⟩ := D.executes payload hstate hsnapshot hstep
  refine runs_perform_bind hallowed hcost fun answer _ => ?_
  split
  · exact fun _ h => (by cases h)
  refine (still_of_asks (stageOutputBlobs_asks _)).then ?_
  rintro ⟨err, staged⟩ -
  cases err with
  | some err => exact fun _ h => (by cases h)
  | none => exact fun outputs _ => hrecorded _ outputs

theorem executeStep_runs (ht : D.Good n t) (hstate : D.flows n t.taskID state)
    (hsnapshot : state.snapshot = some schema) (hstep : schema.stepAt state.currentStep = some step) :
    D.Affords n (executeStep c t schema state step) := by
  refine runs_plain_bind rfl fun localExists => ?_
  split
  · refine (runStep_runs hstate hsnapshot hstep).bind fun result m hresult => ?_
    rcases result with err | outputs
    · exact (sendPipelineError_still ht err).affords
    have hrecorded := hresult outputs rfl
    have howns : D.owns t.taskID t.requesterNodeID := ht.owns
    refine Still.then (?_ : D.Still (fun _ => True) _) fun _ _ => ?_
    · refine still_perform_bind (D.journals (n := m) ⟨?_, ?_, .inl rfl⟩) fun _ =>
        still_perform_bind ?_ fun _ => trivial
      · exact fun _ h => (by cases h)
      · exact fun h => absurd h (by simp)
      · exact journals_checkpointFromTask howns rfl rfl (apt_some hrecorded).some fun _ => rfl
    · refine advancePipeline_runs howns hrecorded hsnapshot ?_
      have hpositive : 0 ≤ state.currentStep := by
        by_contra hneg
        simp [PipelineSchema.stepAt, hneg] at hstep
      simp only [recordStep]
      omega
  · exact routePipelineStep_runs ht step

theorem executePipelineStep_runs (ht : D.Good n t)
    (hschema : ∀ state, t.pipelineState = some state → state.snapshot = some schema) :
    D.Affords n (executePipelineStep c t schema) := by
  unfold executePipelineStep
  split
  · exact (sendPipelineError_still ht _).affords
  rename_i st hst
  have hallocated := D.allocated (ht.state.some st hst)
  have ht' : D.Good n { t with
      pipelineState := some { st with outputs := some (st.outputs.getD []) } } :=
    ⟨ht.owns, apt_some hallocated⟩
  dsimp only
  split
  · exact (sendPipelineError_still ht' _).affords
  next step hstep => exact executeStep_runs ht' hallocated (hschema st hst) hstep

end Running

theorem processTask_runs (ht : D.Good n t) : D.Affords n (processTask c t) := by
  refine (registeredOrCarried_still _ (carried_of_apt ht.state)).then fun schema hschema => ?_
  have hlocal : D.schema (schema.getD (singleStep t.service)) := by
    cases schema with
    | none => exact D.single _
    | some S => exact hschema S rfl
  refine Still.then (bindPipelineState_still ⟨ht.owns, ht.state⟩ hlocal) fun bound hbound => ?_
  rcases hresult : bound.result with err | execSchema
  · exact (sendPipelineError_still hbound.request err).affords
  refine executePipelineStep_runs hbound.request fun state hstate => ?_
  obtain ⟨state', hstate', hsnapshot⟩ := hbound.schema execSchema hresult
  cases hstate'.symm.trans hstate
  exact hsnapshot

/-! ### Resuming -/

theorem handOver_runs (targetPeer : String) (hreq : D.Good n req) :
    D.Runs (Refunds n) n (handOver c targetPeer req) := by
  unfold handOver
  split
  · refine runs_plain_bind rfl fun _ => (submitTask_runs hreq).bind fun err m hrefunds herr => ?_
    exact hrefunds (by simpa using herr)
  split
  · exact fun _ => le_rfl
  refine (dispatchTask_runs targetPeer hreq).bind ?_
  rintro ⟨err, req'⟩ m htried
  cases err with
  | some err => exact fun _ => (htried (by simp)).1
  | none => exact runs_plain_bind rfl fun _ h => absurd rfl h

theorem resumeTaken_runs (taskID : String) {task : TaskEscrowRequest} {schema : PipelineSchema}
    (htask : D.entry n task) (hschema : D.schema schema) (stepIndex : ℤ) (step : PipelineStep)
    (targetPeer : String) :
    D.Affords n (resumeTaken c taskID task schema stepIndex step targetPeer) := by
  have hreq := D.resumes stepIndex step targetPeer htask hschema
  refine runs_plain_bind rfl fun prevMeta => (still_of_asks (preparePipelineTargets_asks _)).then ?_
  rintro ⟨err, req⟩ hfilled
  refine runs_plain_bind rfl fun _ => ?_
  refine (handOver_runs targetPeer (good_filled_targets hreq hfilled)).bind fun err m hrefunds => ?_
  cases err with
  | some err =>
    -- the error has given back what is needed to put the entry back
    obtain ⟨hallowed, hcost⟩ := D.puts (D.raiseEntry (hrefunds (by simp)) htask)
    refine Runs.bind (?_ : D.Affords m _) fun _ _ _ => trivial
    refine runs_perform_bind hallowed hcost fun _ _ => runs_plain_bind rfl fun _ => ?_
    exact (setTaskStatus_still _).affords
  | none =>
    refine Still.then (?_ : D.Still (fun _ => True) _) fun _ _ => trivial
    refine (setTaskStatus_still _).bind fun _ _ => ?_
    exact still_perform_bind (D.marks _ _ htask) fun _ => trivial

/-- What is in the queue and in the escrow table of a node may be passed on. -/
structure Stocked (D : Conduct c) : Prop where
  dequeue : D.rules.allowed .dequeue ∧ D.prices.cost .dequeue = 0
  queued : ∀ {n t}, D.rules.answers .dequeue (some t) →
    D.Good (n + D.prices.gain .dequeue (some t)) t
  take : ∀ id, D.rules.allowed (.takeEscrow id) ∧ D.prices.cost (.takeEscrow id) = 0
  taken : ∀ {n id task}, D.rules.answers (.takeEscrow id) (some task) →
    D.entry (n + D.prices.gain (.takeEscrow id) (some task)) task
  waiting : ∀ {id task}, D.rules.answers (.read fun s => s.escrow.get id) (some task) →
    ∀ S, task.pipelineState.bind PipelineExecutionState.snapshot = some S → D.schema S

theorem worker_runs (hD : D.Stocked) : D.Affords n (worker c) := by
  obtain ⟨hallowed, hcost⟩ := hD.dequeue
  refine runs_perform_bind hallowed (by omega) fun task htask => ?_
  rw [hcost, Nat.sub_zero]
  cases task with
  | none => exact trivial
  | some t => exact processTask_runs (hD.queued htask)

theorem resumeEscrowTask_runs (hD : D.Stocked) (taskID : String) :
    D.Affords n (resumeEscrowTask c taskID) := by
  have hread := D.plain (rfl : (Action.read fun s => s.escrow.get taskID).plain = true)
  refine runs_perform_bind hread.1 (by omega) fun entry hentry => ?_
  rcases entry with _ | task
  · exact trivial
  refine (registeredOrCarried_still _ (hD.waiting hentry)).then fun schema hschema => ?_
  split
  · exact trivial
  rename_i S
  split
  · exact trivial
  refine (still_of_asks (findCandidate_asks _ _)).then fun targetPeer _ => ?_
  split
  · exact trivial
  obtain ⟨hallowed, hcost⟩ := hD.take taskID
  refine runs_perform_bind hallowed (by omega) fun taken htaken => ?_
  rw [hcost, Nat.sub_zero]
  cases taken with
  | none => exact trivial
  | some taken => exact resumeTaken_runs taskID (hD.taken htaken) (hschema S rfl) _ _ _

theorem wakeupEscrowTasks_runs (hD : D.Stocked) : D.Affords n (wakeupEscrowTasks c) := by
  have hloop : ∀ (taskIDs : List String) (n : ℕ), D.Affords n (resumeEscrowTasks c taskIDs) := by
    intro taskIDs
    induction taskIDs with
    | nil => exact fun _ => trivial
    | cons taskID rest ih =>
      intro n
      exact (resumeEscrowTask_runs hD taskID).bind fun _ m _ => (ih m).bind fun _ _ _ => trivial
  exact runs_plain_bind rfl fun taskIDs => hloop taskIDs n

end Conduct

end Proxyma.Compute
