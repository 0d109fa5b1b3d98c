import Proxyma.Compute.Execution
import Proxyma.Compute.StatusLaw

/-!
# The metadata of tasks

Whatever stores a response touches its task, and whatever takes a task out of the
active table takes its metadata along.  Only the functions that add delegates do not
look at the active table.  A worker that hands a step of another node's task on
gives metadata to a task of which it keeps no status, and nothing removes it again.
-/

namespace Proxyma.Compute

open Keyed Atomic TaskTables

variable {t t' : TaskTables} {now : ℤ} {p : String}

/-- Every task with metadata is active. -/
def Covered (t : TaskTables) : Prop :=
  ∀ id, (t.statusMeta.get id).isSome → (t.statuses.get id).isSome

/-- In addition, the active table is within its limit. -/
structure Bounded (t : TaskTables) : Prop where
  covered : Covered t
  positive : 0 < t.statusLimit
  within : (t.statuses.keys.length : ℤ) ≤ t.statusLimit

theorem Change.covered (h : Change now p t t') (ht : Covered t) : Covered t' := by
  intro id hid
  cases h with
  | @touch id' hnone hactive =>
    by_cases heq : id = id'
    · exact heq ▸ hactive
    · exact ht id (by simpa [touchTaskStatus, touchStatusMeta, heq] using hid)
  | @delete response hget =>
    have hne : id ≠ response.taskID := by
      rintro rfl
      simp [deleteTaskStatus] at hid
    simp only [deleteTaskStatus, Bucket.get_erase, Table.get_erase, if_neg hne] at hid ⊢
    exact ht id hid
  | @retire response reason hget =>
    have hne : id ≠ response.taskID := by
      rintro rfl
      simp [retireActiveTaskStatus, touchRetiredTaskStatus, TaskTables.deleteAccepted,
        deleteTaskStatus] at hid
    simp only [retireActiveTaskStatus, touchRetiredTaskStatus, TaskTables.deleteAccepted,
      deleteTaskStatus, Bucket.get_erase, Table.get_erase, if_neg hne] at hid ⊢
    exact ht id hid

theorem Covered.prune (ht : Covered t) (hpos : 0 < t.statusLimit) :
    Bounded (t.pruneTaskStatuses now p) := by
  obtain ⟨s, hpassed, hout⟩ := pruneTaskStatuses_spec t now p
  obtain ⟨t₁, hforgotten, hchanges⟩ := hpassed.changes
  obtain ⟨hlast, -⟩ := pruneRetiredTaskStatuses_spec s now p
  have hs : Covered s := by
    refine Relation.ReflTransGen.rec (motive := fun s _ => Covered s) ?_
      (fun _ hstep ih => hstep.covered ih) hchanges
    rwa [Covered, hforgotten.statuses, hforgotten.statusMeta]
  have hlimit : (s.pruneRetiredTaskStatuses now p).statusLimit = t.statusLimit := congrArg Prod.fst
    (hlast.limits.trans ((limits_of_changes hchanges).trans hforgotten.limits))
  rw [hout]
  refine ⟨?_, by rwa [hlimit], ?_⟩
  · rwa [Covered, hlast.statuses, hlast.statusMeta]
  · rw [hlast.statuses, hlimit]
    exact hpassed.within hpos

theorem Bounded.covers (h : Bounded t) (hcovers : Covers t t') : Bounded t' := by
  have hlimit : t'.statusLimit = t.statusLimit := congrArg Prod.fst hcovers.limits
  refine ⟨fun id hid => ?_, by rw [hlimit]; exact h.positive, ?_⟩
  · rw [hcovers.statuses]
    exact (hcovers.metadata id hid).elim (h.covered id) fun hactive => hactive
  · rw [hcovers.statuses, hlimit]
    exact h.within

theorem Bounded.puts (h : Bounded t) {response : ServiceTaskResponse}
    (hputs : Puts now response t t') : Bounded (t'.pruneTaskStatuses now p) := by
  have hlimit : t'.statusLimit = t.statusLimit := congrArg Prod.fst hputs.limits
  refine Covered.prune (fun id hid => ?_) (by rw [hlimit]; exact h.positive)
  rw [hputs.statuses, Table.get_insert]
  split_ifs with heq
  · rfl
  · exact h.covered id (hputs.others id heq ▸ hid)

theorem bounded_failAcceptedTasks (c : Node) (w : World) (tasks : List TaskRequest) (s : Engine)
    (hs : Bounded s.tables) : Bounded (tasks.foldl (Engine.failAcceptedTask c w) s).tables := by
  induction tasks generalizing s with
  | nil => exact hs
  | cons req rest ih =>
    refine ih _ ?_
    simp only [Engine.failAcceptedTask]
    split
    · exact hs.covers ⟨rfl, rfl, rfl, fun _ => .inl⟩
    · simp only [Engine.withTables, recordCheckpoint_tables]
      exact (hs.puts (puts_touchTaskStatus _ _ _)).covers ⟨rfl, rfl, rfl, fun _ => .inl⟩

/-- Delegates are only added to active tasks. -/
def DelegatesActive {β : Type} (e : Action β) (s : Engine) : Prop :=
  ∀ id, e.delegates id → (s.tables.statuses.get id).isSome

theorem bounded_step (c : Node) (w : World) {β : Type} (e : Action β) (s : Engine)
    (he : DelegatesActive e s) (hs : Bounded s.tables) : Bounded (exec c w e s).2.tables := by
  by_cases hreports : e.reports = true
  · by_cases hfails : e.failsAccepted = true
    · cases e with
      | failAcceptedTasks => exact bounded_failAcceptedTasks c w _ s hs
      | _ => cases hfails
    · have hturn := exec_turn c w e s (by simpa using hfails) hreports
      generalize (exec c w e s).2.tables = t' at hturn ⊢
      cases hturn with
      | adjust hadjusted => exact hs.covers hadjusted.toCovers
      | store hstores hadjusted hputs => exact (hs.covers hadjusted.toCovers).puts hputs
      | look hcovers => exact (hs.covered.prune hs.positive).covers hcovers
  · obtain ⟨hstatuses, hretired, hlimits, hmetadata⟩ :=
      exec_unreported c w e s (by simpa using hreports)
    exact hs.covers ⟨hstatuses, hretired, hlimits, fun id hid => (hmetadata id hid).imp_right (he id)⟩

/-- A worker with given limits, over a database. -/
def Engine.limited (db : Storage.Database) (statusLimit pendingTTL terminalTTL : ℤ) : Engine :=
  { Engine.new db with
    tables := { TaskTables.initial with
      statusLimit := statusLimit
      pendingTTL := pendingTTL
      terminalTTL := terminalTTL } }

/-- In every run of a worker that adds delegates only to active tasks, every task
with metadata is active, so there is no more metadata than the limit allows. -/
theorem metadata_bounded (c : Node) (w : World) (db : Storage.Database)
    (statusLimit pendingTTL terminalTTL : ℤ) (hpos : 0 < statusLimit) (s : Engine)
    (hrun : Relation.ReflTransGen (Acts (handler c w) DelegatesActive)
      (.limited db statusLimit pendingTTL terminalTTL) s) :
    (∀ id, (s.tables.statusMeta.get id).isSome → (s.tables.statuses.get id).isSome) ∧
      (s.tables.statusMeta.keys.length : ℤ) ≤ s.tables.statusLimit := by
  have hnew : Bounded (Engine.limited db statusLimit pendingTTL terminalTTL).tables :=
    ⟨fun id hid => by simp [Engine.limited, TaskTables.initial] at hid, hpos, hpos.le⟩
  have hs : Bounded s.tables := Acts.run (fun e s he hs => bounded_step c w e s he hs) hnew hrun
  have hsub : s.tables.statusMeta.keys ⊆ s.tables.statuses.keys := fun id hid =>
    mem_keys.2 (hs.covered id (Option.isSome_iff_exists.2 (Bucket.mem_keys.1 hid)))
  have hle := (List.subperm_of_subset s.tables.statusMeta.nodup_keys hsub).length_le
  exact ⟨hs.covered, by have := hs.within; omega⟩

/-- A task that `r` has submitted for a service of `b`. -/
def relayedTask (id : String) : TaskRequest :=
  { taskID := id, service := "scan", requesterNodeID := "r" }

theorem metadata_bounded_registered :
    let h := handler (.named "a") .quiet
    let s := (h.exec (.registerOutgoingTask (relayedTask "t") []) (.limited .empty 1 0 0)).2
    let s' := (h.exec (.delegateProducers "t" ["b"]) s).2
    s'.tables.statusMeta.keys = ["t"] ∧
      (s'.tables.statusMeta.keys.length : ℤ) ≤ s'.tables.statusLimit := by
  intro h s s'
  have hactive : (s.tables.statuses.get "t").isSome := by decide +kernel
  have hrun : Relation.ReflTransGen (Acts h DelegatesActive) (.limited .empty 1 0 0) s' := by
    refine (Relation.ReflTransGen.single (.act fun id hid => hid.elim)).tail (.act fun id hid => ?_)
    obtain rfl : "t" = id := hid
    exact hactive
  exact ⟨by decide +kernel, (metadata_bounded (.named "a") .quiet .empty 1 0 0 one_pos s' hrun).2⟩

/-- A worker that relays two tasks keeps the metadata of both and the status of none. -/
theorem relaying_leaves_metadata :
    let c := Node.named "a"
    let h := handler c { World.quiet with serviceFinder := fun _ _ _ => .ok "b" }
    let relay := fun (s : Engine) id =>
      ((worker c).prog.run h ((submitTask c (relayedTask id)).prog.run h s).2).2
    let s := ["t", "u"].foldl relay (.limited .empty 1 0 0)
    s.queue = [] ∧ s.tables.statuses.keys = [] ∧ s.tables.statusMeta.keys = ["t", "u"] ∧
      s.tables.statusLimit < s.tables.statusMeta.keys.length := by
  decide +kernel

end Proxyma.Compute
