import Proxyma.Compute.Engine
import Proxyma.Compute.Retention

/-!
# How a task's status moves

`exec_tables` says once what an action can do to the status tables: it ages
them, or it stores one response and then ages them.  `Stores` lists the actions
of the second kind with the guards under which they store.

The law of the statuses follows by cases on it.  The active and the retired table
stay disjoint, a failed task stays failed, a completed one stays completed until a
failed ingest of its outputs is recorded, and an ingesting one ends.  Three steps
have to be left out for this: registering a task that has been retired, putting
an unfinished status over an ingesting one, and closing the engine.
-/

namespace Proxyma.Compute

open Keyed Atomic

variable {response : ServiceTaskResponse} {t t' : TaskTables} {id : String}
  {status status' : TaskStatus} {s : Engine}
  {active active' retired retired' : Option ServiceTaskResponse}

namespace TaskTables

/-- The tables with one more active response. -/
def stored (t : TaskTables) (response : ServiceTaskResponse) : TaskTables :=
  { t with statuses := t.statuses.insert response }

/-- Only metadata and accepted tasks have changed, and an entry of metadata is only added to an
active task. -/
structure Covers (t t' : TaskTables) : Prop where
  statuses : t'.statuses = t.statuses
  retired : t'.retired = t.retired
  limits : limits t' = limits t
  metadata : ∀ id, (t'.statusMeta.get id).isSome →
    (t.statusMeta.get id).isSome ∨ (t.statuses.get id).isSome

/-- In addition, no task has been touched. -/
structure Adjusted (t t' : TaskTables) : Prop extends Covers t t' where
  touched : ∀ id, (t'.metadataOf id).touchedAt = (t.metadataOf id).touchedAt
  kept : ∀ id, (t.statusMeta.get id).isSome → (t'.statusMeta.get id).isSome

theorem Adjusted.refl (t : TaskTables) : Adjusted t t :=
  ⟨⟨rfl, rfl, rfl, fun _ => .inl⟩, fun _ => rfl, fun _ => id⟩

theorem Adjusted.deleteAccepted (h : Adjusted t t') (taskID : String) :
    Adjusted t (t'.deleteAccepted taskID) :=
  ⟨⟨h.statuses, h.retired, h.limits, h.metadata⟩, h.touched, h.kept⟩

theorem Adjusted.setMetadata (h : Adjusted t t') {metadata : TaskStatusMetadata}
    (hactive : (t.statuses.get id).isSome)
    (htouched : metadata.touchedAt = (t'.metadataOf id).touchedAt) :
    Adjusted t (t'.setMetadata id metadata) := by
  refine ⟨⟨h.statuses, h.retired, h.limits, fun id' => ?_⟩, fun id' => ?_, fun id' => ?_⟩ <;>
    by_cases hid : id' = id
  · exact fun _ => .inr (hid ▸ hactive)
  · simpa [TaskTables.setMetadata, hid] using h.metadata id'
  · subst hid
    simpa [TaskTables.setMetadata, metadataOf] using htouched.trans (h.touched id')
  · simpa [TaskTables.setMetadata, metadataOf, hid] using h.touched id'
  · simp [TaskTables.setMetadata, hid]
  · simpa [TaskTables.setMetadata, hid] using h.kept id'

theorem Adjusted.delegateProducers (h : Adjusted t t') (hactive : (t.statuses.get id).isSome)
    (targets : List String) : Adjusted t (t'.delegateProducers id targets) :=
  h.setMetadata hactive rfl

/-- A response has been stored and its task touched. -/
structure Puts (now : ℤ) (response : ServiceTaskResponse) (t t' : TaskTables) : Prop where
  statuses : t'.statuses = t.statuses.insert response
  retired : t'.retired = t.retired
  limits : limits t' = limits t
  touched : TouchedAt t' response.taskID now
  others : ∀ id, id ≠ response.taskID → t'.statusMeta.get id = t.statusMeta.get id

theorem puts_touchTaskStatus (t : TaskTables) (response : ServiceTaskResponse) (now : ℤ) :
    Puts now response t ((t.stored response).touchTaskStatus response.taskID now) := by
  refine ⟨rfl, rfl, rfl, ?_, fun id hid => ?_⟩
  · simp [TouchedAt, touchTaskStatus, touchStatusMeta]
  · simp [stored, touchTaskStatus, touchStatusMeta, hid]

/-- What was stored is still there after the pass that follows. -/
theorem Puts.kept {now : ℤ} (h : Puts now response t t') :
    (t'.pruneTaskStatuses now response.taskID).statuses.get response.taskID = some response := by
  rw [(pruneTaskStatuses_spares h.touched).status, h.statuses]
  exact Table.get_insert_self _ response

end TaskTables

open TaskTables

/-! ## What an action does to the tables -/

/-- An accepted callback of an authorized producer stores its outcome over an
unfinished task. -/
structure AnswersTask (t : TaskTables) (producer : String)
    (callback response : ServiceTaskResponse) : Prop where
  authorized : isAuthorizedCallbackProducer producer (t.metadataOf callback.taskID) = true
  active : ∃ current, t.statuses.get response.taskID = some current ∧
    isTerminalTaskStatus current.status = false ∧ current.status ≠ .ingesting
  status : response.status = .ingesting ∨ isTerminalTaskStatus response.status = true
  taskID : response.taskID = callback.taskID

/-- The response an action stores into the active table, and when it does. -/
def Stores : {β : Type} → Action β → TaskTables → ServiceTaskResponse → Prop
  | _, .registerOutgoingTask req _, t, response =>
    t.statuses.get req.taskID = none ∧
      response = { taskID := req.taskID, service := req.service, status := .pending }
  | _, .acceptTaskCallback producer callback, t, response =>
    AnswersTask t producer callback response
  | _, .recordTaskResponse recorded, t, response =>
    response = recorded ∧ t.retired.get response.taskID = none ∧
      ∀ current, t.statuses.get response.taskID = some current → current.status ≠ .failed
  | _, .setTaskStatus set, t, response =>
    response = set ∧ t.retired.get response.taskID = none ∧
      ∀ current, t.statuses.get response.taskID = some current →
        isTerminalTaskStatus current.status = false
  | _, _, _, _ => False

/-- What an action makes of the tables: it adjusts them, it stores a response and a pass follows,
or it looks at them after a pass. -/
inductive Turn (now : ℤ) {β : Type} (e : Action β) (t : TaskTables) : TaskTables → Prop
  | adjust {t' : TaskTables} (h : Adjusted t t') : Turn now e t t'
  | store {response : ServiceTaskResponse} {t₁ t₂ : TaskTables} (hstores : Stores e t response)
      (h : Adjusted t t₁) (hputs : Puts now response t₁ t₂) :
      Turn now e t (t₂.pruneTaskStatuses now response.taskID)
  | look {p : String} {t' : TaskTables} (h : Covers (t.pruneTaskStatuses now p) t') :
      Turn now e t t'

section Turns

variable {β : Type} {e : Action β} {now : ℤ} {t₁ : TaskTables}

theorem storeTaskStatus_turn (hstores : Stores e t response) (h : Adjusted t t₁) :
    Turn now e t (t₁.storeTaskStatus response now) :=
  .store hstores h (puts_touchTaskStatus t₁ response now)

theorem storeCallback_turn (h : Adjusted t t₁)
    (hstores : ∀ status, status = .ingesting ∨ isTerminalTaskStatus status = true →
      Stores e t { response with status := status }) :
    Turn now e t (t₁.storeCallback response now).tables := by
  simp only [storeCallback]
  split
  · rename_i hstatus
    split_ifs
    · exact storeTaskStatus_turn (hstores .ingesting (.inl rfl)) h
    · have hcompleted := hstores .completed (.inr rfl)
      rw [← hstatus] at hcompleted
      exact storeTaskStatus_turn hcompleted (h.deleteAccepted _)
  · rename_i hstatus
    have hfailed := hstores .failed (.inr rfl)
    rw [← hstatus] at hfailed
    exact storeTaskStatus_turn hfailed (h.deleteAccepted _)
  · exact .adjust h

theorem acceptTaskCallback_turn (t : TaskTables) (producer : String)
    (response : ServiceTaskResponse) (now : ℤ) :
    Turn now (.acceptTaskCallback producer response) t
      (t.acceptTaskCallback producer response now).tables := by
  simp only [acceptTaskCallback]
  split
  · exact .adjust (.refl t)
  split
  · exact .adjust (.refl t)
  split
  · split <;> exact .adjust (.refl t)
  rename_i current hget
  split
  · split <;> exact .adjust (.refl t)
  rename_i hauthorized
  have hadjusted := (Adjusted.refl t).delegateProducers (by rw [hget]; rfl) [producer]
  simp only [handleCallback]
  split
  · exact .adjust hadjusted
  split
  · split <;> exact .adjust hadjusted
  split
  · split <;> exact .adjust hadjusted
  · rename_i hterminal hingesting
    refine storeCallback_turn hadjusted fun status hstatus => ⟨by simpa using hauthorized, ?_,
      hstatus, rfl⟩
    exact ⟨current, hget, by simpa using hterminal, hingesting⟩

/-- A callback of a node that is not authorized leaves the tables as they are. -/
theorem acceptTaskCallback_unauthorized {producer : String}
    (h : isAuthorizedCallbackProducer producer (t.metadataOf response.taskID) = false) (now : ℤ) :
    (t.acceptTaskCallback producer response now).tables = t ∧
      (t.acceptTaskCallback producer response now).stored = none := by
  simp only [acceptTaskCallback, h]
  repeat' split
  all_goals first | exact ⟨rfl, rfl⟩ | contradiction

theorem recordTaskResponse_turn (t : TaskTables) (response : ServiceTaskResponse) (now : ℤ) :
    Turn now (.recordTaskResponse response) t (t.recordTaskResponse response now).tables := by
  simp only [TaskTables.recordTaskResponse]
  split_ifs with hretired hfailed hterminal
  · exact .adjust (.refl t)
  · exact .adjust (.refl t)
  all_goals
    have hstores : Stores (.recordTaskResponse response) t response :=
      ⟨rfl, by simpa using hretired, fun current hget => by simpa [hget] using hfailed⟩
  · exact storeTaskStatus_turn hstores ((Adjusted.refl t).deleteAccepted _)
  · exact storeTaskStatus_turn hstores (.refl t)

theorem setTaskStatus_turn (t : TaskTables) (response : ServiceTaskResponse) (now : ℤ) :
    Turn now (.setTaskStatus response) t (t.setTaskStatus response now) := by
  simp only [TaskTables.setTaskStatus]
  split_ifs with hretired hcurrent hterminal
  · exact .adjust (.refl t)
  · exact .adjust (.refl t)
  all_goals
    have hstores : Stores (.setTaskStatus response) t response :=
      ⟨rfl, by simpa using hretired, fun current hget => by simpa [hget] using hcurrent⟩
  · exact storeTaskStatus_turn hstores ((Adjusted.refl t).deleteAccepted _)
  · exact storeTaskStatus_turn hstores (.refl t)

theorem registerOutgoingTask_turn (t : TaskTables) (req : TaskRequest) (delegated : List String)
    (now : ℤ) :
    Turn now (.registerOutgoingTask req delegated) t
      (t.registerOutgoingTask req delegated now) := by
  simp only [TaskTables.registerOutgoingTask]
  split
  · rename_i current hget
    have hactive : (t.statuses.get req.taskID).isSome := by rw [hget]; rfl
    have hdelegated := (Adjusted.refl t).delegateProducers hactive delegated
    split_ifs
    · refine .adjust (Adjusted.setMetadata (hdelegated.delegateProducers hactive _) hactive ?_)
      rfl
    · exact .adjust hdelegated
  · rename_i hnew
    have hstores : Stores (.registerOutgoingTask req delegated) t
      { taskID := req.taskID, service := req.service, status := .pending } := ⟨hnew, rfl⟩
    refine .store hstores (.refl t) ⟨rfl, rfl, rfl, ?_, fun id hid => ?_⟩
    · simp [TouchedAt, setMetadata, metadataOf, touchTaskStatus, touchStatusMeta]
    · simp [setMetadata, metadataOf, touchTaskStatus, touchStatusMeta, hid]

theorem getTaskResponse_turn (e : Action β) (t : TaskTables) (taskID : String) (now : ℤ) :
    Turn now e t (t.getTaskResponse taskID now).2 := by
  generalize hs : t.pruneTaskStatuses now taskID = s
  refine .look (p := taskID) ?_
  simp only [getTaskResponse, hs]
  split
  · rename_i hget
    refine ⟨rfl, rfl, rfl, fun id hid => ?_⟩
    by_cases h : id = taskID <;> simp_all [touchTaskStatus, touchStatusMeta]
  · split <;> exact ⟨rfl, rfl, rfl, fun _ => .inl⟩

end Turns

/-- Whether an action closes the books of the accepted tasks. -/
def Action.failsAccepted : {β : Type} → Action β → Bool
  | _, .failAcceptedTasks => true
  | _, _ => false

/-- Whether an action works on the active or the retired table. -/
def Action.reports : {β : Type} → Action β → Bool
  | _, .registerOutgoingTask _ _ => true
  | _, .acceptTaskCallback _ _ => true
  | _, .recordTaskResponse _ => true
  | _, .setTaskStatus _ => true
  | _, .getTaskResponse _ => true
  | _, .getAllTaskStatuses => true
  | _, .failAcceptedTasks => true
  | _, _ => false

/-- Whether an action adds metadata to a task without a look at its status. -/
def Action.delegates : {β : Type} → Action β → String → Prop
  | _, .delegateProducers taskID _, id => taskID = id
  | _, .expectProducer taskID _ _, id => taskID = id
  | _, .restoreMetadata taskID metadata, id => taskID = id ∧ metadata.isSome
  | _, _, _ => False

theorem exec_unreported (c : Node) (w : World) {β : Type} (e : Action β) (s : Engine)
    (he : e.reports = false) :
    (exec c w e s).2.tables.statuses = s.tables.statuses ∧
      (exec c w e s).2.tables.retired = s.tables.retired ∧
      limits (exec c w e s).2.tables = limits s.tables ∧
      ∀ id, ((exec c w e s).2.tables.statusMeta.get id).isSome →
        (s.tables.statusMeta.get id).isSome ∨ e.delegates id := by
  cases e with
  | enqueue req =>
    simp only [exec, Engine.enqueue]
    repeat' split
    all_goals exact ⟨rfl, rfl, rfl, fun _ => .inl⟩
  | applyPipelineRevision schema =>
    simp only [exec, Engine.applyPipelineRevision]
    repeat' split
    all_goals exact ⟨rfl, rfl, rfl, fun _ => .inl⟩
  | checkpoint record =>
    rw [show (exec c w (.checkpoint record) s).2.tables = _ from
      recordCheckpoint_tables c w s record]
    exact ⟨rfl, rfl, rfl, fun _ => .inl⟩
  | delegateProducers taskID | expectProducer taskID =>
    refine ⟨rfl, rfl, rfl, fun id hid => ?_⟩
    by_cases h : id = taskID
    · exact .inr h.symm
    · exact .inl (by simpa [exec, Engine.withTables, delegateProducers, expectProducer,
        setMetadata, h] using hid)
  | restoreMetadata taskID metadata =>
    refine ⟨rfl, rfl, rfl, fun id hid => ?_⟩
    by_cases h : id = taskID <;> cases metadata <;>
      simp_all [exec, Engine.withTables, Action.delegates]
  | registerOutgoingTask | acceptTaskCallback | recordTaskResponse | setTaskStatus
  | getTaskResponse | getAllTaskStatuses | failAcceptedTasks =>
    exact absurd he (by simp [Action.reports])
  | _ => exact ⟨rfl, rfl, rfl, fun _ => .inl⟩

/-- What the actions on both tables but the last one make of them. -/
theorem exec_turn (c : Node) (w : World) {β : Type} (e : Action β) (s : Engine)
    (he : e.failsAccepted = false) (hreports : e.reports = true) :
    Turn (w.clock s.answers) e s.tables (exec c w e s).2.tables := by
  cases e with
  | registerOutgoingTask req delegated => exact registerOutgoingTask_turn s.tables req delegated _
  | acceptTaskCallback producer response =>
    simp only [exec, finish_tables]
    exact acceptTaskCallback_turn s.tables producer response _
  | recordTaskResponse response =>
    simp only [exec, finish_tables]
    exact recordTaskResponse_turn s.tables response _
  | setTaskStatus response => exact setTaskStatus_turn s.tables response _
  | getTaskResponse taskID => exact getTaskResponse_turn _ s.tables taskID _
  | getAllTaskStatuses => exact .look (p := "") ⟨rfl, rfl, rfl, fun _ => .inl⟩
  | failAcceptedTasks => exact absurd he (by simp [Action.failsAccepted])
  | _ => exact absurd hreports (by simp [Action.reports])

/-- A response has been stored and kept by the pass that followed. -/
structure Stored (t : TaskTables) (response : ServiceTaskResponse) (t' : TaskTables) : Prop where
  aged : Aged (t.stored response) t'
  kept : t'.statuses.get response.taskID = some response

theorem exec_tables (c : Node) (w : World) {β : Type} (e : Action β) (s : Engine)
    (he : e.failsAccepted = false) :
    Aged s.tables (exec c w e s).2.tables ∨
      ∃ response, Stores e s.tables response ∧
        Stored s.tables response (exec c w e s).2.tables := by
  by_cases hreports : e.reports = true
  · have hturn := exec_turn c w e s he hreports
    generalize (exec c w e s).2.tables = t' at hturn ⊢
    cases hturn with
    | adjust h => exact .inl (.of_eq h.statuses h.retired)
    | look h => exact .inl ((pruneTaskStatuses_aged _).trans (.of_eq h.statuses h.retired))
    | @store response t₁ t₂ hstores h hputs =>
      refine .inr ⟨response, hstores, Aged.trans ?_ (pruneTaskStatuses_aged _), hputs.kept⟩
      exact .of_eq (hputs.statuses.trans (by rw [h.statuses]; rfl)) (hputs.retired.trans h.retired)
  · obtain ⟨hstatuses, hretired, -⟩ := exec_unreported c w e s (by simpa using hreports)
    exact .inl (.of_eq hstatuses hretired)

/-! ## The law -/

/-- The active and the retired table have no task in common, and what is retired
has failed. -/
structure TaskTables.Ordered (t : TaskTables) : Prop where
  disjoint : ∀ id, t.statuses.get id = none ∨ t.retired.get id = none
  failed : ∀ id response, t.retired.get id = some response → response.status = .failed

theorem ordered_initial : TaskTables.initial.Ordered :=
  ⟨fun _ => .inl rfl, fun _ _ h => by simp [TaskTables.initial] at h⟩

theorem AgedAt.ordered (h : AgedAt active retired active' retired')
    (hdisjoint : active = none ∨ retired = none)
    (hfailed : ∀ response, retired = some response → response.status = .failed) :
    (active' = none ∨ retired' = none) ∧
      ∀ response, retired' = some response → response.status = .failed := by
  cases h with
  | kept hretired =>
    rcases hretired with rfl | rfl
    · exact ⟨hdisjoint, hfailed⟩
    · exact ⟨.inr rfl, by simp⟩
  | deleted hterminal hretired =>
    rcases hretired with rfl | rfl
    · exact ⟨.inl rfl, hfailed⟩
    · exact ⟨.inl rfl, by simp⟩
  | retired hterminal hretired =>
    refine ⟨.inl rfl, ?_⟩
    rcases hretired with ⟨reason, rfl⟩ | rfl
    · rintro response ⟨⟩
      rfl
    · simp

theorem TaskTables.Ordered.aged (ht : t.Ordered) (haged : Aged t t') : t'.Ordered :=
  ⟨fun id => ((haged.entry id).ordered (ht.disjoint id) (ht.failed id)).1,
    fun id => ((haged.entry id).ordered (ht.disjoint id) (ht.failed id)).2⟩

theorem TaskTables.Ordered.stored (ht : t.Ordered)
    (hretired : t.retired.get response.taskID = none) : (t.stored response).Ordered := by
  refine ⟨fun id => ?_, ht.failed⟩
  simp only [TaskTables.stored, Table.get_insert]
  split_ifs with hid
  · exact .inr (hid ▸ hretired)
  · exact ht.disjoint id

/-- Ageing gives up an unfinished task or leaves the report as it is. -/
theorem AgedAt.reported (h : AgedAt active retired active' retired')
    (hdisjoint : active = none ∨ retired = none) {response' : ServiceTaskResponse}
    (hbefore : active.or retired = some response) (hafter : active'.or retired' = some response') :
    response'.status = response.status ∨
      isTerminalTaskStatus response.status = false ∧ response'.status = .failed := by
  cases h with
  | kept hretired => rcases hretired with rfl | rfl <;> cases active <;> simp_all
  | deleted hterminal hretired =>
    -- the retired entry was empty, so nothing is reported afterwards
    rcases hretired with rfl | rfl <;> simp_all
  | retired hterminal hretired =>
    obtain rfl : _ = response := by simpa using hbefore
    refine .inr ⟨hterminal, ?_⟩
    rcases hretired with ⟨reason, rfl⟩ | rfl
    · obtain rfl : _ = response' := by simpa using hafter
      rfl
    · simp at hafter

theorem reported_of_aged (ht : t.Ordered) (haged : Aged t t')
    (hbefore : t.reported id = some status) (hafter : t'.reported id = some status') :
    status' = status ∨ isTerminalTaskStatus status = false ∧ status' = .failed := by
  obtain ⟨response, hresponse, rfl⟩ := Option.map_eq_some_iff.1 hbefore
  obtain ⟨response', hresponse', rfl⟩ := Option.map_eq_some_iff.1 hafter
  exact (haged.entry id).reported (ht.disjoint id) hresponse hresponse'

theorem reported_stored (t : TaskTables) (response : ServiceTaskResponse) (id : String) :
    (t.stored response).reported id =
      if id = response.taskID then some response.status else t.reported id := by
  simp only [reported, stored, Table.get_insert]
  split_ifs <;> simp

/-- The steps the law is about. -/
def Lawful : {β : Type} → Action β → Engine → Prop
  | _, .registerOutgoingTask req _, s =>
    s.tables.statuses.get req.taskID = none → s.tables.retired.get req.taskID = none
  | _, .setTaskStatus response, s =>
    s.tables.reported response.taskID = some .ingesting →
      response.status = .ingesting ∨ isTerminalTaskStatus response.status = true
  | _, .recordTaskResponse response, _ => isTerminalTaskStatus response.status = true
  | _, .failAcceptedTasks, _ => False
  | _, _, _ => True

/-- Whether an action publishes the ingest result of a task. -/
def Action.recordsResult : {β : Type} → Action β → String → Bool
  | _, .recordTaskResponse response, id => response.taskID = id
  | _, _, _ => false

theorem Lawful.not_failsAccepted {β : Type} {e : Action β} (he : Lawful e s) :
    e.failsAccepted = false := by
  cases e <;> first | rfl | exact absurd he id

theorem retired_of_stores {β : Type} {e : Action β} (ht : s.tables.Ordered) (he : Lawful e s)
    (hstores : Stores e s.tables response) : s.tables.retired.get response.taskID = none := by
  cases e with
  | registerOutgoingTask req delegated =>
    obtain ⟨hnew, rfl⟩ := hstores
    exact he hnew
  | acceptTaskCallback producer callback =>
    obtain ⟨current, hget, -⟩ := hstores.active
    exact (ht.disjoint _).resolve_left (by simp [hget])
  | recordTaskResponse _ | setTaskStatus _ => exact hstores.2.1
  | _ => exact absurd hstores id

theorem ordered_step (c : Node) (w : World) {β : Type} (e : Action β) (s : Engine)
    (he : Lawful e s) (ht : s.tables.Ordered) : (exec c w e s).2.tables.Ordered := by
  rcases exec_tables c w e s he.not_failsAccepted with haged | ⟨response, hstores, haged, -⟩
  · exact ht.aged haged
  · exact (ht.stored (retired_of_stores ht he hstores)).aged haged

/-- From one report of a task to the next. -/
structure Follows (status status' : TaskStatus) (recorded : Bool) : Prop where
  failed : status = .failed → status' = .failed
  completed : status = .completed → status' = .completed ∨ status' = .failed ∧ recorded = true
  ingesting : status = .ingesting →
    status' = .ingesting ∨ status' = .completed ∨ status' = .failed

theorem follows_of_aged (ht : t.Ordered) (haged : Aged t t')
    (hbefore : t.reported id = some status) (hafter : t'.reported id = some status')
    (recorded : Bool) : Follows status status' recorded := by
  rcases reported_of_aged ht haged hbefore hafter with rfl | ⟨hterminal, rfl⟩
  · exact ⟨fun h => h, .inl, .inl⟩
  · refine ⟨?_, ?_, ?_⟩ <;> rintro rfl <;> simp_all

/-- What a lawful step may store over a task that is reported. -/
theorem follows_of_stores {β : Type} {e : Action β} (ht : s.tables.Ordered) (he : Lawful e s)
    (hstores : Stores e s.tables response)
    (hbefore : s.tables.reported response.taskID = some status) :
    Follows status response.status (e.recordsResult response.taskID) := by
  have hretired := retired_of_stores ht he hstores
  obtain ⟨current, hget, hcurrent⟩ : ∃ current, s.tables.statuses.get response.taskID =
      some current ∧ current.status = status := by
    simpa [reported, hretired] using hbefore
  cases e with
  | registerOutgoingTask req delegated =>
    obtain ⟨hnew, rfl⟩ := hstores
    exact absurd hget (by simp [hnew])
  | acceptTaskCallback producer callback =>
    obtain ⟨current', hget', hterminal, hingesting⟩ := hstores.active
    cases hget.symm.trans hget'
    subst hcurrent
    refine ⟨?_, ?_, ?_⟩ <;> intro h <;> simp_all
  | recordTaskResponse recorded =>
    obtain ⟨rfl, -, hfailed⟩ := hstores
    have hterminal : response.status = .completed ∨ response.status = .failed := by
      simpa [Lawful, isTerminalTaskStatus] using he
    refine ⟨fun h => absurd (hcurrent.trans h) (hfailed current hget), ?_, fun _ => ?_⟩
    · exact fun _ => hterminal.imp_right fun h => ⟨h, by simp [Action.recordsResult]⟩
    · exact .inr hterminal
  | setTaskStatus set =>
    obtain ⟨rfl, -, hunfinished⟩ := hstores
    have hterminal := hunfinished current hget
    subst hcurrent
    refine ⟨?_, ?_, fun h => ?_⟩
    · intro h
      simp_all
    · intro h
      simp_all
    · exact (he (by rw [hbefore, h])).imp_right fun h => by simpa [isTerminalTaskStatus] using h
  | _ => exact absurd hstores id

theorem follows_step (c : Node) (w : World) {β : Type} {e : Action β} (he : Lawful e s)
    (ht : s.tables.Ordered) (hbefore : s.tables.reported id = some status)
    (hafter : (exec c w e s).2.tables.reported id = some status') :
    Follows status status' (e.recordsResult id) := by
  rcases exec_tables c w e s he.not_failsAccepted with haged | ⟨response, hstores, haged, -⟩
  · exact follows_of_aged ht haged hbefore hafter _
  have ht' := ht.stored (retired_of_stores ht he hstores)
  by_cases hid : id = response.taskID
  · subst hid
    -- first the stored status, then what the pass after it makes of it
    have hfirst := follows_of_stores ht he hstores hbefore
    have hstored : (s.tables.stored response).reported response.taskID = some response.status := by
      simp [reported_stored]
    rcases reported_of_aged ht' haged hstored hafter with rfl | ⟨hterminal, rfl⟩
    · exact hfirst
    · refine ⟨fun _ => rfl, fun h => ?_, fun _ => .inr (.inr rfl)⟩
      rcases hfirst.completed h with h | ⟨h, hrec⟩
      · simp [h] at hterminal
      · simp [h] at hterminal
  · refine follows_of_aged ht' haged ?_ hafter _
    simpa [reported_stored, hid] using hbefore

/-- In every run of an open engine that registers no retired task and puts no
unfinished status over an ingesting task, no task is active and retired at once,
and reports follow each other as they should. -/
theorem reported_status_follows (c : Node) (w : World) (db : Storage.Database) (s : Engine)
    (hrun : Relation.ReflTransGen (Acts (handler c w) Lawful) (Engine.new db) s) :
    (∀ id, s.tables.statuses.get id = none ∨ s.tables.retired.get id = none) ∧
      ∀ {β : Type} (e : Action β), Lawful e s → ∀ id status status',
        s.tables.reported id = some status →
        (exec c w e s).2.tables.reported id = some status' →
        Follows status status' (e.recordsResult id) := by
  have hstep : ∀ {β : Type} (e : Action β) (s : Engine), Lawful e s → s.tables.Ordered →
      ((handler c w).exec e s).2.tables.Ordered := fun e s => ordered_step c w e s
  have ht : s.tables.Ordered := Acts.run hstep ordered_initial hrun
  exact ⟨ht.disjoint, fun e he id _ _ hbefore hafter => follows_step c w he ht hbefore hafter⟩

/-- A report about the task of the runs below. -/
def scanReport (status : TaskStatus) : ServiceTaskResponse :=
  { taskID := "task", service := "scan", status := status }

/-- An engine that sent a task to `b` and got the answer that it is completed. -/
def answeredEngine : Engine :=
  let h := handler (.named "a") .quiet
  let req : TaskRequest :=
    { taskID := "task", service := "scan", expectedProducerNodeID := "b" }
  let s := (h.exec (.registerOutgoingTask req []) (.new .empty)).2
  (h.exec (.acceptTaskCallback "b" (scanReport .completed)) s).2

theorem answeredEngine_run :
    Relation.ReflTransGen (Acts (handler (.named "a") .quiet) Lawful) (.new .empty)
      answeredEngine :=
  (Relation.ReflTransGen.single (.act fun _ => rfl)).tail (.act trivial)

theorem reported_status_follows_answered :
    answeredEngine.tables.reported "task" = some .completed ∧
      (exec (.named "a") .quiet (.setTaskStatus (scanReport .running))
        answeredEngine).2.tables.reported "task" = some .completed ∧
      Follows .completed .completed false := by
  have hbefore : answeredEngine.tables.reported "task" = some .completed := by decide +kernel
  have hafter : (exec (.named "a") .quiet (.setTaskStatus (scanReport .running))
      answeredEngine).2.tables.reported "task" = some .completed := by decide +kernel
  have hlawful : Lawful (.setTaskStatus (scanReport .running)) answeredEngine := by
    intro hingesting
    simp [show (scanReport .running).taskID = "task" from rfl, hbefore] at hingesting
  refine ⟨hbefore, hafter, ?_⟩
  exact (reported_status_follows (.named "a") .quiet .empty answeredEngine answeredEngine_run).2
    (.setTaskStatus (scanReport .running)) hlawful "task" _ _ hbefore hafter

/-- A recorded ingest failure turns a completed task into a failed one. -/
theorem ingest_failure_replaces_completed :
    Relation.ReflTransGen (Acts (handler (.named "a") .quiet) Lawful) (.new .empty)
        answeredEngine ∧
      answeredEngine.tables.reported "task" = some .completed ∧
      (exec (.named "a") .quiet (.recordTaskResponse (scanReport .failed))
        answeredEngine).2.tables.reported "task" = some .failed :=
  ⟨answeredEngine_run, by decide +kernel, by decide +kernel⟩

end Proxyma.Compute
