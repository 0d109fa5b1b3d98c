import Proxyma.Compute.Discipline

/-!
# What a task may still cost

How often a node runs a step of a task, or hands it to a peer, is bounded by how
often the task gets onto the node.  `prices` turns this into bookkeeping for one
task and one step: having the task in the queue or in escrow, at this step or before
it, costs one; taking it out brings that back; and running the step or handing it to
a peer costs one.  Every call of the engine lives within the share of the request it
works on: what it hands on is the same task at the same step, or the same task one
step later after running the step before.  This makes the prices a conduct
(`budget`).
-/

namespace Proxyma.Compute

open Keyed Atomic Atomic.Call GoError

/-! ## Shares -/

/-- The index of the step a task is at. -/
def stepIndexOf (state : Option PipelineExecutionState) : ℤ :=
  (state.map PipelineExecutionState.currentStep).getD 0

section Shares

variable (id : String) (k : ℤ)

/-- What a task at some step still has to pay for step `k` of task `id`. -/
def share (taskID : String) (index : ℤ) : ℕ := if taskID = id ∧ index ≤ k then 1 else 0

def requestShare (t : TaskRequest) : ℕ := share id k t.taskID (stepIndexOf t.pipelineState)

/-- The share of an escrow entry; one that carries no state may be resumed at any
step. -/
def entryShare (e : TaskEscrowRequest) : ℕ :=
  share id k e.taskID ((e.pipelineState.map PipelineExecutionState.currentStep).getD k)

/-- What running a step costs, or handing it to a peer. -/
def runCost (taskID : String) (index : ℤ) : ℕ := if taskID = id ∧ index = k then 1 else 0

variable {id k}

theorem runCost_add_share (taskID : String) (index : ℤ) :
    runCost id k taskID index + share id k taskID (index + 1) ≤ share id k taskID index := by
  unfold runCost share
  grind

theorem runCost_le_share (taskID : String) (index : ℤ) :
    runCost id k taskID index ≤ share id k taskID index :=
  (Nat.le_add_right _ _).trans (runCost_add_share taskID index)

variable (id k)

def Action.cost : {β : Type} → Action β → ℕ
  | _, .enqueue req => requestShare id k req
  | _, .putEscrow e => entryShare id k e
  | _, .execute taskID _ _ state _ => runCost id k taskID state.currentStep
  | _, .submitToPeer _ req => runCost id k req.taskID (stepIndexOf req.pipelineState)
  | _, _ => 0

/-- What the answer of an action brings in; a request that is turned away has not
cost anything. -/
def Action.gain : {β : Type} → Action β → β → ℕ
  | _, .enqueue req, some _ => requestShare id k req
  | _, .submitToPeer _ req, some _ => runCost id k req.taskID (stepIndexOf req.pipelineState)
  | _, .dequeue, some req => requestShare id k req
  | _, .takeEscrow _, some e => entryShare id k e
  | _, _, _ => 0

/-- The prices for step `k` of task `id`. -/
def prices : Prices Action := ⟨Action.cost id k, Action.gain id k⟩

/-- The actions that cost something. -/
def Action.moves : {β : Type} → Action β → Bool
  | _, .enqueue _ => true
  | _, .putEscrow _ => true
  | _, .execute _ _ _ _ _ => true
  | _, .submitToPeer _ _ => true
  | _, _ => false

end Shares

/-! ## The budget of a task -/

section Budget

variable {c : Node} {id : String} {k : ℤ} {n : ℕ}

theorem currentStep_resumeState {task : TaskEscrowRequest} {state : PipelineExecutionState}
    (htask : task.pipelineState = some state) (schema : PipelineSchema) (stepIndex : ℤ)
    (step : PipelineStep) (target : String) :
    (resumeState c task schema stepIndex step target).currentStep = state.currentStep := by
  refine resumeState_induction (P := fun st => st.currentStep = state.currentStep) htask rfl ?_ ?_ ?_
  · intro st hst
    rw [currentStep_ensureInitialProducer, hst]
  · exact fun st previous _ hst => hst
  · exact fun st hst => hst

theorem share_resumeState (task : TaskEscrowRequest) (schema : PipelineSchema)
    (stepIndex : ℤ) (step : PipelineStep) (target : String) :
    share id k task.taskID (resumeState c task schema stepIndex step target).currentStep ≤
      entryShare id k task := by
  unfold entryShare
  cases hstate : task.pipelineState with
  | none =>
    simp only [share, Option.map_none, Option.getD_none, le_refl, and_true]
    grind
  | some state =>
    rw [currentStep_resumeState hstate]
    rfl

variable (id k)

/-- The prices as a charter; everything is allowed. -/
def pricing : Charter where
  rules := ⟨fun _ => True, fun _ _ => True⟩
  prices := prices id k
  panics := True
  plain := by
    intro β e he
    refine ⟨trivial, ?_, fun b => ?_⟩ <;>
      cases e <;> first | rfl | exact absurd he (by simp [Action.plain])

/-- A task must be worth its share. -/
def shares : Terms where
  owns _ _ := True
  fresh n taskID := share id k taskID 0 ≤ n
  flows n taskID state := share id k taskID state.currentStep ≤ n
  schema _ := True

variable {id k}

theorem good_shares {t : TaskRequest} : (shares id k).Good n t ↔ requestShare id k t ≤ n := by
  unfold requestShare
  constructor
  · rintro ⟨-, hnone, hsome⟩
    cases hstate : t.pipelineState with
    | none => exact hnone hstate
    | some state => exact hsome state hstate
  · intro h
    refine ⟨trivial, fun hnone => ?_, fun state hsome => ?_⟩
    · rwa [hnone] at h
    · rwa [hsome] at h

theorem hands_pricing {e : Action (Option GoError)} (hcost : (prices id k).cost e ≤ n)
    (hgain : ∀ err, (prices id k).gain e (some err) = (prices id k).cost e) :
    (pricing id k).Hands n e := by
  refine ⟨trivial, hcost, fun err => ?_⟩
  have hrefund := hgain err
  change n ≤ n - (prices id k).cost e + (prices id k).gain e (some err)
  omega

theorem lodges_pricing {req : TaskEscrowRequest} (h : entryShare id k req ≤ n) :
    (pricing id k).Lodges c n req :=
  fun _ _ => ⟨⟨trivial, rfl, fun _ => rfl⟩, trivial, h⟩

variable (c id k)

/-- The calls of an engine live within the shares of their requests. -/
def budget : Conduct c where
  toCharter := pricing id k
  toTerms := shares id k
  registered _ := trivial
  revision _ := trivial
  raise hnm := ⟨fun h => h.trans hnm, fun h => h.trans hnm⟩
  anonymous _ _ := trivial
  carried _ _ := trivial
  initial _ hfresh _ := hfresh
  resolved h _ _ := h
  adopted h _ _ _ _ _ := h
  retargeted h hretargeted := by
    rw [hretargeted]
    exact h
  produced _ h := by
    change share id k _ _ ≤ _
    rwa [currentStep_ensureInitialProducer]
  inRange _ := Or.inl trivial
  journals _ := ⟨trivial, rfl, fun _ => rfl⟩
  enqueues hreq := hands_pricing (good_shares.1 hreq) fun _ => rfl
  entry n task := entryShare id k task ≤ n
  single _ := trivial
  submits hreq :=
    hands_pricing ((runCost_le_share _ _).trans (good_shares.1 hreq)) fun _ => rfl
  allocated h := h
  executes _ h _ _ := by
    refine ⟨trivial, (runCost_le_share _ _).trans h, fun _ _ => ?_⟩
    -- the share pays for the step and for what the task will need after it
    refine Nat.le_sub_of_add_le ?_
    rw [Nat.add_comm]
    exact (runCost_add_share _ _).trans h
  escalates step stepIndex cause now ht hsome := by
    refine ⟨fun _ => ⟨trivial, rfl, fun _ => rfl⟩, fun _ => lodges_pricing ?_⟩
    obtain ⟨state, hstate⟩ := Option.isSome_iff_exists.1 hsome
    have hshare : share id k _ _ ≤ _ := ht.state.some state hstate
    simpa [entryShare, escrowRequest, hstate] using hshare
  raiseEntry hnm h := h.trans hnm
  puts h := ⟨trivial, h⟩
  resumes stepIndex step target htask _ :=
    ⟨trivial, Terms.apt_some ((share_resumeState _ _ stepIndex step target).trans htask)⟩
  marks _ _ _ := ⟨trivial, rfl, fun _ => rfl⟩

theorem stocked_budget : (budget c id k).Stocked where
  dequeue := ⟨trivial, rfl⟩
  queued _ := good_shares.2 (Nat.le_add_left _ _)
  take _ := ⟨trivial, rfl⟩
  taken _ := Nat.le_add_left _ _
  waiting _ _ _ := trivial

variable {c id k}

theorem spends_of_affords {α : Type} {p : Call Action α} (hp : (pricing id k).Affords n p) :
    p.thread.Spends (prices id k) (fun _ _ => True) n :=
  Prog.Spends.bind (Prog.Pays.spends hp fun _ _ => trivial) fun _ _ _ => trivial

end Budget

end Proxyma.Compute
