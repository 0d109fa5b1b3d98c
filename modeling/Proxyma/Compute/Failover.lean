import Proxyma.Compute.Asking

/-!
# Rounds of a failover

`dispatchStepWithFailover` depends on the dispatcher, the local submission, the
service finder and the escrow only through what they answer.  The function is
written here once over any monad, with these as its `Contacts`.  At the calls of
the engine it is the function of the engine (`dispatchStepWithFailover_eq`); with
a `Behaviour`, which answers from the log of all that has happened, it leaves
the log of what it did.

The invariant of the rounds (`Trying`) ties the log to the targets that have been
tried, and says that the next target is a new one and has been authorised.  A
candidate is authorised as soon as it is found, also after the third round, when
no round is left to try it.
-/

namespace Proxyma.Compute.Failover

open Keyed Atomic Atomic.Call GoError

/-! ## The rounds over any monad -/

section Monadic

universe u

variable {m : Type → Type u}

/-- What the rounds ask of their surroundings. -/
structure Contacts (m : Type → Type u) where
  delegate : String → String → m Unit
  attempt : String → TaskRequest → m (Option GoError × TaskRequest)
  find : List String → m (Except GoError String)
  supports : m Bool
  escalate : TaskRequest → GoError → m (Option GoError)

variable [Monad m] (contacts : Contacts m) (c : Node) (step : PipelineStep)

/-- The next candidate. -/
def alternative (triedPeers : List String) : m String := do
  let found ← (if c.serviceFinder then do
      let answer ← contacts.find triedPeers
      return (match answer with
        | .ok peerID => if peerID ∈ triedPeers then "" else peerID
        | .error _ => "")
    else pure "")
  if found ≠ "" then return found
  else if c.nodeID ∈ triedPeers then return ""
  else
    let localSupports ← contacts.supports
    return (if localSupports then c.nodeID else "")

/-- The loop. -/
def rounds : ℕ → List String → String → TaskRequest → m Dispatched
  | 0, _, _, t => return .exhausted t
  | n + 1, triedPeers, target, t => do
      if target ≠ c.nodeID ∧ !c.taskDispatcher then return .unconfigured t
      else
        let (err, t) ← contacts.attempt target (targeted t step target)
        match err with
        | none => return .handed
        | some _ =>
          let triedPeers := triedPeers ++ [target]
          let altTarget ← alternative contacts c triedPeers
          if altTarget = "" then return .exhausted t
          else
            contacts.delegate t.taskID altTarget
            rounds n triedPeers altTarget t

/-- The whole function. -/
def dispatch (t : TaskRequest) (initialTarget : String) (stepIndex : ℤ) : m Routed := do
  if initialTarget ≠ "" then contacts.delegate t.taskID initialTarget
  match ← rounds contacts c step 3 [] initialTarget t with
  | .handed => return .handed
  | .unconfigured t =>
    return .failed t (.errorf "task dispatcher not configured on compute engine" [])
  | .exhausted t =>
    let err := .errorf ("failed to dispatch step '%s': " ++
      "all target candidates exhausted (initial: %s)") [step.id, initialTarget]
    if mayEscalate t stepIndex then
      match ← contacts.escalate t err with
      | none => return .escrowed
      | some _ => return .failed t err
    else return .failed t err

end Monadic

/-! ## The engine -/

/-- The surroundings in the engine. -/
def engineContacts (c : Node) (step : PipelineStep) (stepIndex : ℤ) : Contacts (Call Action) where
  delegate taskID target := perform (.delegateProducers taskID [target])
  attempt target req := do
    if target = c.nodeID then
      perform (.deleteAccepted req.taskID)
      let err ← submitTask c req
      return (err, req)
    else
      let (err, t) ← dispatchTask c target req
      match err with
      | some err => return (some err, t)
      | none =>
        perform (.deleteAccepted t.taskID)
        return (none, t)
  find triedPeers := perform (.find (stepQuery step stepIndex triedPeers))
  supports := getHandler step.service
  escalate t err := escalateToEscrow c t step stepIndex err

theorem failover_eq (c : Node) (step : PipelineStep) (stepIndex : ℤ) (n : ℕ)
    (triedPeers : List String) (target : String) (t : TaskRequest) :
    failover c step stepIndex n triedPeers target t =
      rounds (engineContacts c step stepIndex) c step n triedPeers target t := by
  induction n generalizing triedPeers target t with
  | zero => rfl
  | succ n ih =>
    have hattempt : attempt c t step target =
        (engineContacts c step stepIndex).attempt target (targeted t step target) := by
      unfold attempt engineContacts
      dsimp only
      split_ifs with hself
      · rw [hself]
        rfl
      · rfl
    unfold failover rounds
    rw [hattempt]
    simp only [ih]
    rfl

theorem dispatchStepWithFailover_eq (c : Node) (t : TaskRequest) (step : PipelineStep)
    (initialTarget : String) (stepIndex : ℤ) :
    dispatchStepWithFailover c t step initialTarget stepIndex =
      dispatch (engineContacts c step stepIndex) c step t initialTarget stepIndex := by
  unfold dispatchStepWithFailover dispatch delegateTo
  simp only [failover_eq]
  split_ifs <;> rfl

/-! ## Behaviours -/

/-- One attempt: the target, the request that was sent, who was authorised at that
moment to answer for which task, and the error. -/
structure Attempt where
  target : String
  request : TaskRequest
  authorised : List (String × String)
  err : Option GoError

/-- What a call has done: its attempts, the latest first, and whom it has
authorised. -/
structure Log where
  attempts : List Attempt := []
  authorised : List (String × String) := []

/-- How the surroundings answer, given the attempts that were made. -/
structure Behaviour where
  attempt : List Attempt → String → TaskRequest → Option GoError × Option PipelineExecutionState
  find : List Attempt → List String → Except GoError String
  supports : List Attempt → Bool
  escalate : List Attempt → TaskRequest → GoError → Option GoError

/-- The surroundings of a behaviour.  An attempt may change the execution state of
the request, which it shares. -/
def Behaviour.contacts (b : Behaviour) : Contacts (StateM Log) where
  delegate taskID target log := ((), { log with authorised := (taskID, target) :: log.authorised })
  attempt target req log :=
    let answer := b.attempt log.attempts target req
    ((answer.1, { req with pipelineState := answer.2 }),
      { log with attempts := ⟨target, req, log.authorised, answer.1⟩ :: log.attempts })
  find triedPeers log := (b.find log.attempts triedPeers, log)
  supports log := (b.supports log.attempts, log)
  escalate t err log := (b.escalate log.attempts t err, log)

/-- A call with a behaviour. -/
def Behaviour.run (b : Behaviour) (c : Node) (step : PipelineStep) (t : TaskRequest)
    (initialTarget : String) (stepIndex : ℤ) : Routed × Log :=
  dispatch b.contacts c step t initialTarget stepIndex {}

/-- The candidate that is offered after some attempts. -/
def Behaviour.offer (b : Behaviour) (c : Node) (attempts : List Attempt) : String :=
  let triedPeers := (attempts.map Attempt.target).reverse
  let found := if c.serviceFinder then (match b.find attempts triedPeers with
      | .ok peerID => if peerID ∈ triedPeers then "" else peerID
      | .error _ => "") else ""
  if found ≠ "" then found
  else if c.nodeID ∈ triedPeers then ""
  else if b.supports attempts then c.nodeID else ""

/-- An attempt as it should be: its target is authorised, and the request names it. -/
structure Attempt.Fine (a : Attempt) (taskID stepID : String) : Prop where
  authorised : (taskID, a.target) ∈ a.authorised
  expected : a.request.expectedProducerNodeID = a.target
  selected : ∀ state, a.request.pipelineState = some state → state.target stepID = a.target

/-- Whoever is authorised for a task has been contacted. -/
def Contacted (taskID : String) (log : Log) : Prop :=
  ∀ target, (taskID, target) ∈ log.authorised → target ∈ log.attempts.map Attempt.target

/-- No candidate is offered after a third attempt that failed. -/
def Unoffered (b : Behaviour) (c : Node) (attempts : List Attempt) : Prop :=
  attempts.length = 3 → (∀ a ∈ attempts, a.err ≠ none) → b.offer c attempts = ""

section Rounds

variable {b : Behaviour} {c : Node} {step : PipelineStep} {t : TaskRequest}
variable {log : Log} {triedPeers : List String}

theorem bind_run {α β : Type} {x : StateM Log α} {f : α → StateM Log β} {log' : Log} {a : α}
    (h : x log = (a, log')) : (x >>= f) log = f a log' := by
  change (match x log with | (a, log) => f a log) = _
  rw [h]

theorem alternative_run (h : (log.attempts.map Attempt.target).reverse = triedPeers) :
    alternative b.contacts c triedPeers log = (b.offer c log.attempts, log) := by
  subst h
  have hfound : ∀ found : String, (if found ≠ "" then return found
      else if c.nodeID ∈ (log.attempts.map Attempt.target).reverse then return "" else do
        let localSupports ← b.contacts.supports
        return (if localSupports then c.nodeID else "") : StateM Log String) log =
      (if found ≠ "" then found else if c.nodeID ∈ (log.attempts.map Attempt.target).reverse then ""
        else if b.supports log.attempts then c.nodeID else "", log) := by
    intro found
    by_cases hempty : found = ""
    · by_cases htried : c.nodeID ∈ (log.attempts.map Attempt.target).reverse
      · rw [if_neg (not_not.2 hempty), if_neg (not_not.2 hempty), if_pos htried, if_pos htried]
        rfl
      · rw [if_neg (not_not.2 hempty), if_neg (not_not.2 hempty), if_neg htried, if_neg htried]
        rfl
    · rw [if_pos hempty, if_pos hempty]
      rfl
  unfold alternative Behaviour.offer
  cases c.serviceFinder with
  | false => exact hfound ""
  | true => exact hfound _

theorem offer_new {attempts : List Attempt} (h : b.offer c attempts ≠ "") :
    b.offer c attempts ∉ attempts.map Attempt.target := by
  rw [← List.mem_reverse]
  unfold Behaviour.offer at h ⊢
  dsimp only at h ⊢
  grind

theorem rounds_succ (b : Behaviour) (step : PipelineStep) (t : TaskRequest) (target : String)
    (n : ℕ) (hdispatcher : c.taskDispatcher = true)
    (htargets : (log.attempts.map Attempt.target).reverse = triedPeers) :
    ∃ t' err attempts, t'.taskID = t.taskID ∧
      attempts = ⟨target, targeted t step target, log.authorised, err⟩ :: log.attempts ∧
      rounds b.contacts c step (n + 1) triedPeers target t log =
        if err = none then (.handed, { log with attempts })
        else if b.offer c attempts = "" then (.exhausted t', { log with attempts })
        else rounds b.contacts c step n (triedPeers ++ [target]) (b.offer c attempts) t'
          ⟨attempts, (t.taskID, b.offer c attempts) :: log.authorised⟩ := by
  obtain ⟨err, state, hanswer⟩ : ∃ err state,
      b.attempt log.attempts target (targeted t step target) = (err, state) := ⟨_, _, rfl⟩
  refine ⟨{ targeted t step target with pipelineState := state }, err, _, rfl, rfl, ?_⟩
  set attempts : List Attempt :=
    ⟨target, targeted t step target, log.authorised, err⟩ :: log.attempts with hattempts
  have hattempt : b.contacts.attempt target (targeted t step target) log =
      ((err, { targeted t step target with pipelineState := state }), { log with attempts }) := by
    simp only [Behaviour.contacts, hanswer, hattempts]
  have halt : alternative b.contacts c (triedPeers ++ [target]) { log with attempts } =
      (b.offer c attempts, { log with attempts }) :=
    alternative_run (by simp [hattempts, ← htargets])
  rw [rounds, if_neg (by simp [hdispatcher]), bind_run hattempt]
  rcases err with _ | err
  · rfl
  dsimp only
  rw [bind_run halt, if_neg (Option.some_ne_none err)]
  split_ifs <;> rfl

/-- Before a round, with `n` of them left. -/
structure Trying (b : Behaviour) (c : Node) (taskID stepID : String) (n : ℕ)
    (triedPeers : List String) (target : String) (log : Log) : Prop where
  targets : (log.attempts.map Attempt.target).reverse = triedPeers
  nodup : (target :: log.attempts.map Attempt.target).Nodup
  fine : ∀ a ∈ log.attempts, a.Fine taskID stepID
  authorised : (taskID, target) ∈ log.authorised
  failed : ∀ a ∈ log.attempts, a.err ≠ none
  waiting : ∀ target', (taskID, target') ∈ log.authorised →
    target' = target ∨ target' ∈ log.attempts.map Attempt.target
  left : log.attempts.length + n = 3
  last : n = 0 → b.offer c log.attempts ≠ ""

/-- After the last round. -/
structure Ended (b : Behaviour) (c : Node) (taskID stepID : String) (out : Dispatched × Log) :
    Prop where
  length : out.2.attempts.length ≤ 3
  nodup : (out.2.attempts.map Attempt.target).Nodup
  fine : ∀ a ∈ out.2.attempts, a.Fine taskID stepID
  handed : out.1 = .handed ↔ ∃ a rest, out.2.attempts = a :: rest ∧ a.err = none
  contacted : Contacted taskID out.2 ↔ Unoffered b c out.2.attempts

theorem rounds_ended (hdispatcher : c.taskDispatcher = true) {n : ℕ} {target : String}
    (h : Trying b c t.taskID step.id n triedPeers target log) :
    Ended b c t.taskID step.id (rounds b.contacts c step n triedPeers target t log) := by
  induction n generalizing triedPeers target t log with
  | zero =>
    obtain ⟨hnew, hnodup⟩ := List.nodup_cons.1 h.nodup
    refine ⟨h.left.le, hnodup, h.fine, iff_of_false (fun heq => by cases heq) ?_,
      iff_of_false (fun hcontacted => ?_) fun hunoffered => h.last rfl (hunoffered h.left ?_)⟩
    · rintro ⟨a, rest, ha, hnone⟩
      exact h.failed a (ha ▸ List.mem_cons_self) hnone
    · -- the last candidate waits for a round that does not come
      exact hnew (hcontacted target h.authorised)
    · exact h.failed
  | succ n ih =>
    obtain ⟨t', err, attempts, hid, hattempts, hround⟩ :=
      rounds_succ b step t target n hdispatcher h.targets
    have hmem := hattempts ▸ List.mem_cons_self
    have hnodup : (attempts.map Attempt.target).Nodup := hattempts ▸ h.nodup
    have hlength : attempts.length + n = 3 := by
      rw [hattempts, List.length_cons, ← h.left]
      omega
    have hle : attempts.length ≤ 3 := by omega
    have hfine : ∀ a ∈ attempts, a.Fine t.taskID step.id := by
      rw [hattempts]
      refine List.forall_mem_cons.2 ⟨⟨h.authorised, rfl, fun state hstate => ?_⟩, h.fine⟩
      obtain ⟨state', -, rfl⟩ := Option.map_eq_some_iff.1 hstate
      rw [target_setTarget, if_pos rfl]
    have hcontacted : Contacted t.taskID { log with attempts } := by
      intro target' hauthorised
      rw [hattempts]
      exact List.mem_cons.2 (h.waiting target' hauthorised)
    rw [hround]
    split_ifs with herr hempty
    · refine ⟨hle, hnodup, hfine, iff_of_true rfl ⟨_, _, hattempts, herr⟩, ?_⟩
      exact iff_of_true hcontacted fun _ hfailed => absurd herr (hfailed _ hmem)
    · refine ⟨hle, hnodup, hfine, iff_of_false (fun heq => by cases heq) ?_,
        iff_of_true hcontacted fun _ _ => hempty⟩
      rintro ⟨a, rest, ha, hnone⟩
      cases hattempts.symm.trans ha
      exact herr hnone
    · have hnext : Trying b c t'.taskID step.id n (triedPeers ++ [target]) (b.offer c attempts)
          ⟨attempts, (t.taskID, b.offer c attempts) :: log.authorised⟩ := by
        rw [hid]
        refine ⟨?_, List.nodup_cons.2 ⟨offer_new hempty, hnodup⟩, hfine, List.mem_cons_self, ?_, ?_,
          hlength, fun _ => hempty⟩
        · simp [hattempts, ← h.targets]
        · rw [hattempts]
          exact List.forall_mem_cons.2 ⟨herr, h.failed⟩
        · intro target' hauthorised
          refine (List.mem_cons.1 hauthorised).imp (fun heq => ?_) (hcontacted target')
          exact congrArg Prod.snd heq
      have hended := ih hnext
      rwa [hid] at hended

theorem Behaviour.run_ended (b : Behaviour) (hdispatcher : c.taskDispatcher = true)
    (step : PipelineStep) (t : TaskRequest) {initialTarget : String} (hinitial : initialTarget ≠ "")
    (stepIndex : ℤ) :
    ∃ dispatched, ((b.run c step t initialTarget stepIndex).1 = .handed ↔ dispatched = .handed) ∧
      Ended b c t.taskID step.id (dispatched, (b.run c step t initialTarget stepIndex).2) := by
  have hstart : Trying b c t.taskID step.id 3 [] initialTarget ⟨[], [(t.taskID, initialTarget)]⟩ := by
    refine ⟨rfl, List.nodup_singleton _, fun a ha => ?_, List.mem_cons_self, fun a ha => ?_,
      fun target hmem => .inl ?_, rfl, fun h => by cases h⟩
    · cases ha
    · cases ha
    · exact congrArg Prod.snd (List.mem_singleton.1 hmem)
  have hended := rounds_ended hdispatcher hstart
  obtain ⟨dispatched, log, hrounds⟩ : ∃ dispatched log, rounds b.contacts c step 3 [] initialTarget t
      ⟨[], [(t.taskID, initialTarget)]⟩ = (dispatched, log) := ⟨_, _, rfl⟩
  rw [hrounds] at hended
  have hrun : ∃ routed, b.run c step t initialTarget stepIndex = (routed, log) ∧
      (routed = .handed ↔ dispatched = .handed) := by
    unfold Behaviour.run dispatch
    rw [if_pos hinitial, bind_run (rfl : b.contacts.delegate t.taskID initialTarget {} =
      ((), ⟨[], [(t.taskID, initialTarget)]⟩))]
    dsimp only
    rw [bind_run hrounds]
    cases dispatched with
    | handed => exact ⟨_, rfl, iff_of_true rfl rfl⟩
    | unconfigured t => exact ⟨_, rfl, by simp⟩
    | exhausted t =>
      dsimp only
      split_ifs
      · rw [bind_run (rfl : b.contacts.escalate t _ log = (b.escalate log.attempts t _, log))]
        generalize b.escalate log.attempts t _ = answer
        cases answer <;> exact ⟨_, rfl, by simp⟩
      · exact ⟨_, rfl, by simp⟩
  obtain ⟨routed, hrun, hhanded⟩ := hrun
  rw [hrun]
  exact ⟨dispatched, hhanded, hended⟩

end Rounds

/-- A call with a dispatcher makes at most three attempts, at different targets
that were authorised before and are named in the request, and succeeds exactly if
the last of them does. -/
theorem failover_bounded (b : Behaviour) {c : Node} (hdispatcher : c.taskDispatcher = true)
    (step : PipelineStep) (t : TaskRequest) {initialTarget : String} (hinitial : initialTarget ≠ "")
    (stepIndex : ℤ) :
    let out := b.run c step t initialTarget stepIndex
    out.2.attempts.length ≤ 3 ∧ (out.2.attempts.map Attempt.target).Nodup ∧
      (∀ a ∈ out.2.attempts, a.Fine t.taskID step.id) ∧
      (out.1 = .handed ↔ ∃ a rest, out.2.attempts = a :: rest ∧ a.err = none) := by
  obtain ⟨dispatched, hhanded, hended⟩ := b.run_ended hdispatcher step t hinitial stepIndex
  exact ⟨hended.length, hended.nodup, hended.fine, hhanded.trans hended.handed⟩

/-- Nobody takes the task, and every search finds one more peer. -/
def refusing : Behaviour where
  attempt _ _ req := (some (.new "refused"), req.pipelineState)
  find attempts _ := .ok (["p", "q", "r", "s"].getD attempts.length "")
  supports _ := false
  escalate _ _ _ := none

/-- A call of the node `"a"`. -/
def refused : Routed × Log := refusing.run (.named "a") default default "p" 0

theorem failover_bounded_refused :
    refused.2.attempts.map Attempt.target = ["r", "q", "p"] ∧
      ∀ a ∈ refused.2.attempts, a.Fine "" "" :=
  ⟨by decide +kernel, (failover_bounded refusing rfl default default (by decide) 0).2.2.1⟩

/-- Everyone a call authorises is contacted, exactly unless a candidate is offered
after the third attempt has failed. -/
theorem authorised_contacted_iff (b : Behaviour) {c : Node} (hdispatcher : c.taskDispatcher = true)
    (step : PipelineStep) (t : TaskRequest) {initialTarget : String} (hinitial : initialTarget ≠ "")
    (stepIndex : ℤ) :
    Contacted t.taskID (b.run c step t initialTarget stepIndex).2 ↔
      Unoffered b c (b.run c step t initialTarget stepIndex).2.attempts := by
  obtain ⟨_, -, hended⟩ := b.run_ended hdispatcher step t hinitial stepIndex
  exact hended.contacted

theorem authorised_contacted_unfound :
    Contacted "" (Behaviour.run { refusing with find := fun _ _ => .ok "" } (.named "a") default
      default "p" 0).2 :=
  (authorised_contacted_iff _ rfl default default (by decide) 0).2
    fun hlength => absurd hlength (by decide +kernel)

/-- Three peers refuse, and a fourth may answer for the task without having been
asked. -/
theorem fourth_candidate_authorised :
    ("", "s") ∈ refused.2.authorised ∧ ¬ Contacted "" refused.2 := by
  have hauthorised : ("", "s") ∈ refused.2.authorised := by decide +kernel
  exact ⟨hauthorised, fun h => absurd (h "s" hauthorised) (by decide +kernel)⟩

end Proxyma.Compute.Failover
