import Proxyma.Lib.Bucket

/-!
# Waiting across two nodes

A local mutation of a file takes the mutation lock of its node, and under it the delivery
lock of the file, to stage the notification.  A delivery holds that lock while it calls
the other node, and the handler there takes the mutation lock of that node.  So a mutation
can wait for a delivery, the delivery for a handler, the handler for a mutation of the
other node, and on from there back to the first node.

The way round passes through a mutation on either node.  If a mutation takes its lock only
while the other node has none under way (`apart`), then every operation waits only for
operations of lower `rank`.
-/

namespace Proxyma.Outbox.Waiting

open Keyed

/-- The two nodes. -/
abbrev NodeID := Bool

/-- The locks: `mutationMu` of a node, and the lock of `lockOutboxDelivery` for the
deliveries of a file to the other node. -/
inductive Lock
  | mutation (node : NodeID)
  | delivery (node : NodeID) (entity : String)
  deriving DecidableEq

/-- How far `SaveLocalFile` or `DeleteLocalFile` has come: it waits for the mutation lock;
it holds that and `prepareOutboxMutation` waits for the delivery lock; it holds both. -/
inductive MutationStage
  | waiting
  | locked
  | prepared
  deriving DecidableEq

/-- How far `deliverOutboxAttempt` or the reconciliation of an entry has come: it waits
for the lock; it holds the lock; the call to the other node is taken by a handler there. -/
inductive DeliveryStage
  | waiting
  | locked
  | calling (handler : ℕ)
  deriving DecidableEq

/-- How far `HandleNotification` has come: it waits for the mutation lock, or holds it. -/
inductive HandlerStage
  | waiting
  | locked
  deriving DecidableEq

/-- The operations of the two nodes. -/
inductive Operation
  | mutation (node : NodeID) (entity : String) (stage : MutationStage)
  | delivery (node : NodeID) (entity : String) (stage : DeliveryStage)
  | handler (node : NodeID) (caller : ℕ) (stage : HandlerStage)
  deriving DecidableEq

/-- The locks an operation holds. -/
def Operation.holds : Operation → List Lock
  | .mutation node _ .locked => [.mutation node]
  | .mutation node entity .prepared => [.mutation node, .delivery node entity]
  | .delivery node entity .locked => [.delivery node entity]
  | .delivery node entity (.calling _) => [.delivery node entity]
  | .handler node _ .locked => [.mutation node]
  | _ => []

/-- The lock an operation waits for. -/
def Operation.wants : Operation → Option Lock
  | .mutation node _ .waiting => some (.mutation node)
  | .mutation node entity .locked => some (.delivery node entity)
  | .delivery node entity .waiting => some (.delivery node entity)
  | .handler node _ .waiting => some (.mutation node)
  | _ => none

/-- The operations under way. -/
structure Cluster where
  operations : Bucket ℕ Operation
  deriving DecidableEq

/-- Nothing is under way. -/
def Cluster.idle : Cluster := ⟨.empty⟩

variable {c : Cluster} {busy node : NodeID} {op : Operation} {id : ℕ}

namespace Cluster

/-- Whether nobody holds a lock. -/
def free (c : Cluster) (lock : Lock) : Bool :=
  c.operations.entries.all fun e => lock ∉ e.2.holds

/-- An operation takes its next step. -/
def set (c : Cluster) (id : ℕ) (op : Operation) : Cluster := ⟨c.operations.put id op⟩

/-- An operation is over and lets go of its locks. -/
def finish (c : Cluster) (id : ℕ) : Cluster := ⟨c.operations.erase id⟩

/-- What can happen: an operation starts, gets the lock it waits for, calls the other
node, or is over, by itself or by a timeout. -/
inductive Event
  | mutate (id : ℕ) (node : NodeID) (entity : String)
  | deliver (id : ℕ) (node : NodeID) (entity : String)
  | acquire (id : ℕ)
  | call (id handler : ℕ)
  | finish (id : ℕ)
  deriving DecidableEq

/-- The stage after the lock that was waited for. -/
def acquired : Operation → Operation
  | .mutation node entity .waiting => .mutation node entity .locked
  | .mutation node entity .locked => .mutation node entity .prepared
  | .delivery node entity .waiting => .delivery node entity .locked
  | .handler node caller .waiting => .handler node caller .locked
  | op => op

/-- The cluster after an event, if the event can happen. -/
def step (c : Cluster) : Event → Option Cluster
  | .mutate id node entity =>
    if (c.operations.get id).isNone then some (c.set id (.mutation node entity .waiting))
    else none
  | .deliver id node entity =>
    if (c.operations.get id).isNone then some (c.set id (.delivery node entity .waiting))
    else none
  | .acquire id => do
      let op ← c.operations.get id
      let lock ← op.wants
      if c.free lock then some (c.set id (acquired op)) else none
  | .call id handler =>
    match c.operations.get id, c.operations.get handler with
    | some (.delivery node entity .locked), none =>
      some ((c.set id (.delivery node entity (.calling handler))).set handler
        (.handler (!node) id .waiting))
    | _, _ => none
  | .finish id => some (c.finish id)

/-- An operation waits for one that holds the lock it wants, and a delivery for the
handler that has taken its call. -/
def WaitsFor (c : Cluster) (i j : ℕ) : Prop :=
  ∃ waiting blocking, c.operations.get i = some waiting ∧ c.operations.get j = some blocking ∧
    ((∃ lock, waiting.wants = some lock ∧ lock ∈ blocking.holds) ∨
      ∃ node entity stage, waiting = .delivery node entity (.calling j) ∧
        blocking = .handler (!node) i stage)

/-- Some operation waits for itself, through others. -/
def CircularWait (c : Cluster) : Prop := ∃ i, Relation.TransGen c.WaitsFor i i

/-- Whether an operation is a mutation that holds the mutation lock of a node. -/
def Operation.mutates (node : NodeID) : Operation → Bool
  | .mutation node' _ stage => node' = node ∧ stage ≠ .waiting
  | _ => false

/-- A mutation that holds the mutation lock of a node is under way. -/
def Mutates (c : Cluster) (node : NodeID) : Prop :=
  ∃ e ∈ c.operations.entries, Operation.mutates node e.2 = true

instance (c : Cluster) (node : NodeID) : Decidable (c.Mutates node) :=
  inferInstanceAs (Decidable (∃ e ∈ c.operations.entries, _))

/-- A mutation takes the mutation lock of its node only while the other node has no
mutation that holds its own. -/
def apart (c : Cluster) : Event → Bool
  | .acquire id =>
    match c.operations.get id with
    | some (.mutation node _ .waiting) => ¬ c.Mutates (!node)
    | _ => true
  | _ => true

theorem mutates_iff : c.Mutates node ↔
    ∃ id entity stage, c.operations.get id = some (.mutation node entity stage) ∧
      stage ≠ .waiting := by
  constructor
  · rintro ⟨⟨id, op⟩, hmem, hop⟩
    cases op with
    | mutation node' entity stage =>
      obtain ⟨rfl, hstage⟩ : node' = node ∧ stage ≠ .waiting := by
        simpa [Operation.mutates] using hop
      exact ⟨id, entity, stage, Bucket.mem_entries.1 hmem, hstage⟩
    | delivery _ _ _ | handler _ _ _ => exact absurd hop (by simp [Operation.mutates])
  · rintro ⟨id, entity, stage, hget, hstage⟩
    exact ⟨_, Bucket.mem_entries.2 hget, by simp [Operation.mutates, hstage]⟩

/-! ## Ranks -/

/-- The rank of an operation, if only `busy` has mutations that hold locks: the higher,
the more can be in its way. -/
def rank (busy : NodeID) : Operation → ℕ
  | .mutation _ _ .prepared => 0
  | .handler _ _ .locked => 0
  | .delivery _ _ .locked => 0
  | .handler node _ .waiting => if node = busy then 4 else 1
  | .delivery node _ (.calling _) => if node = busy then 2 else 5
  | .mutation _ _ .locked => 3
  | .delivery _ _ .waiting => 6
  | .mutation _ _ .waiting => 6

/-- Whoever holds a mutation lock is a mutation of the busy node or a handler. -/
theorem rank_of_holds_mutation
    (hbusy : ∀ node entity stage, op = .mutation node entity stage → stage ≠ .waiting → node = busy)
    (h : .mutation node ∈ op.holds) : rank busy op ≤ 3 ∧ (node ≠ busy → rank busy op = 0) := by
  rcases op with ⟨node', entity, _ | _ | _⟩ | ⟨node', entity, _ | _ | handler⟩ |
    ⟨node', caller, _ | _⟩ <;> simp [Operation.holds] at h
  · have hnode := hbusy node' entity .locked rfl (by decide)
    exact ⟨le_rfl, fun hne => absurd (h.trans hnode) hne⟩
  · exact ⟨by simp [rank], fun _ => rfl⟩
  · exact ⟨by simp [rank], fun _ => rfl⟩

/-- Whoever holds a delivery lock of the busy node has rank at most 2. -/
theorem rank_of_holds_delivery {entity : String} (h : .delivery node entity ∈ op.holds) :
    rank busy op ≤ 5 ∧ (node = busy → rank busy op ≤ 2) := by
  rcases op with ⟨node', entity', _ | _ | _⟩ | ⟨node', entity', _ | _ | handler⟩ |
    ⟨node', caller, _ | _⟩ <;> simp [Operation.holds] at h
  · simp [rank]
  · simp [rank]
  obtain ⟨rfl, rfl⟩ := h
  refine ⟨?_, fun hnode => ?_⟩
  · simp only [rank]
    split_ifs <;> omega
  · simp [rank, hnode]

theorem WaitsFor.rank_lt (hbusy : ∀ node, c.Mutates node → node = busy) {i j : ℕ}
    (h : c.WaitsFor i j) {waiting blocking : Operation} (hi : c.operations.get i = some waiting)
    (hj : c.operations.get j = some blocking) : rank busy blocking < rank busy waiting := by
  obtain ⟨waiting', blocking', hi', hj', hblocks⟩ := h
  cases hi.symm.trans hi'
  cases hj.symm.trans hj'
  have hmutation : ∀ {op : Operation} {id : ℕ}, c.operations.get id = some op →
      ∀ node entity stage, op = .mutation node entity stage → stage ≠ .waiting →
        node = busy := by
    rintro op id hget node entity stage rfl hstage
    exact hbusy node (mutates_iff.2 ⟨id, entity, stage, hget, hstage⟩)
  rcases hblocks with ⟨lock, hwants, hholds⟩ | ⟨node, entity, stage, rfl, rfl⟩
  · rcases waiting with ⟨node, entity, _ | _ | _⟩ | ⟨node, entity, _ | _ | handler⟩ |
      ⟨node, caller, _ | _⟩ <;> simp only [Operation.wants, Option.some.injEq, reduceCtorEq]
        at hwants <;> subst hwants
    · have hrank := (rank_of_holds_mutation (hmutation hj) hholds).1
      change rank busy blocking < 6
      omega
    · have hnode := hmutation hi node entity .locked rfl (by decide)
      have hrank := (rank_of_holds_delivery hholds).2 hnode
      change rank busy blocking < 3
      omega
    · have hrank : rank busy blocking ≤ 5 := (rank_of_holds_delivery hholds).1
      change rank busy blocking < 6
      omega
    · obtain ⟨hrank, hidle⟩ := rank_of_holds_mutation (hmutation hj) hholds
      change rank busy blocking < if node = busy then 4 else 1
      split_ifs with hnode
      · omega
      · rw [hidle hnode]
        exact Nat.zero_lt_one
  · cases stage with
    | locked =>
      simp only [rank]
      split_ifs <;> omega
    | waiting =>
      simp only [rank]
      cases node <;> cases busy <;> decide

theorem no_circularWait (hbusy : ∀ node, c.Mutates node → node = busy) : ¬ c.CircularWait := by
  have hlower : ∀ {i j}, Relation.TransGen c.WaitsFor i j →
      ∃ waiting blocking, c.operations.get i = some waiting ∧
        c.operations.get j = some blocking ∧ rank busy blocking < rank busy waiting := by
    intro i j hij
    induction hij with
    | single h =>
      obtain ⟨waiting, blocking, hi, hj, -⟩ := id h
      exact ⟨waiting, blocking, hi, hj, h.rank_lt hbusy hi hj⟩
    | tail _ h ih =>
      obtain ⟨waiting, between, hi, hbetween, hlt⟩ := ih
      obtain ⟨_, blocking, -, hj, -⟩ := id h
      exact ⟨waiting, blocking, hi, hj, (h.rank_lt hbusy hbetween hj).trans hlt⟩
  rintro ⟨i, hcycle⟩
  obtain ⟨waiting, blocking, hi, hi', hlt⟩ := hlower hcycle
  cases hi.symm.trans hi'
  exact lt_irrefl _ hlt

/-! ## Runs -/

/-- Only one node has mutations that hold locks. -/
def OneBusy (c : Cluster) : Prop := ∃ busy, ∀ node, c.Mutates node → node = busy

theorem mutates_set (h : (c.set id op).Mutates node) :
    c.Mutates node ∨ ∃ entity stage, op = .mutation node entity stage ∧ stage ≠ .waiting := by
  obtain ⟨id', entity, stage, hget, hstage⟩ := mutates_iff.1 h
  rw [set, Bucket.get_put] at hget
  split_ifs at hget
  · exact .inr ⟨entity, stage, Option.some.inj hget, hstage⟩
  · exact .inl (mutates_iff.2 ⟨id', entity, stage, hget, hstage⟩)

theorem OneBusy.of_mutates {c' : Cluster} (h : c.OneBusy)
    (hmutates : ∀ node, c'.Mutates node → c.Mutates node) : c'.OneBusy := by
  obtain ⟨busy, hbusy⟩ := h
  exact ⟨busy, fun node hnode => hbusy node (hmutates node hnode)⟩

/-- An operation other than a mutation with a lock may take its place. -/
theorem OneBusy.set (h : c.OneBusy)
    (hop : ∀ node entity stage, op = .mutation node entity stage → stage = .waiting) :
    (c.set id op).OneBusy := by
  refine h.of_mutates fun node hnode => ?_
  rcases mutates_set hnode with hold | ⟨entity, stage, heq, hstage⟩
  · exact hold
  · exact absurd (hop node entity stage heq) hstage

theorem OneBusy.acquire (h : c.OneBusy) (hget : c.operations.get id = some op)
    (hapart : c.apart (.acquire id) = true) : (c.set id (acquired op)).OneBusy := by
  rcases op with ⟨node, entity, _ | _ | _⟩ | ⟨node, entity, _ | _ | handler⟩ |
    ⟨node, caller, _ | _⟩
  · -- The mutation lock: the other node has no mutation that holds one.
    refine ⟨node, fun node' hnode' => ?_⟩
    rcases mutates_set hnode' with hold | ⟨entity', stage, heq, -⟩
    · by_contra hne
      have hother : node' = !node := by cases node <;> cases node' <;> simp_all
      simp only [apart, hget, decide_eq_true_eq] at hapart
      exact hapart (hother ▸ hold)
    · exact ((Operation.mutation.inj heq).1).symm
  all_goals
    refine h.of_mutates fun node' hnode' => ?_
    rcases mutates_set hnode' with hold | ⟨entity', stage, heq, hstage⟩
    · exact hold
    · simp only [acquired, Operation.mutation.injEq, reduceCtorEq] at heq
      try
        obtain ⟨rfl, rfl, rfl⟩ := heq
        exact mutates_iff.2 ⟨id, _, _, hget, by decide⟩

theorem OneBusy.step {c' : Cluster} {event : Event} (h : c.OneBusy) (hapart : c.apart event = true)
    (hstep : c.step event = some c') : c'.OneBusy := by
  cases event with
  | mutate id node entity =>
    simp only [Cluster.step] at hstep
    split_ifs at hstep
    cases hstep
    exact h.set fun node' entity' stage heq => ((Operation.mutation.inj heq).2.2).symm
  | deliver id node entity =>
    simp only [Cluster.step] at hstep
    split_ifs at hstep
    cases hstep
    exact h.set fun node' entity' stage heq => absurd heq (by simp)
  | acquire id =>
    obtain ⟨op, hget, hstep⟩ := Option.bind_eq_some_iff.1 hstep
    obtain ⟨lock, -, hstep⟩ := Option.bind_eq_some_iff.1 hstep
    split_ifs at hstep
    cases hstep
    exact h.acquire hget hapart
  | call id handler =>
    simp only [Cluster.step] at hstep
    split at hstep
    · cases hstep
      refine OneBusy.set (h.set ?_) ?_
      · exact fun node' entity' stage heq => absurd heq (by simp)
      · exact fun node' entity' stage heq => absurd heq (by simp)
    · cases hstep
  | finish id =>
    cases hstep
    refine h.of_mutates ?_
    intro node hnode
    obtain ⟨id', entity, stage, hget, hstage⟩ := mutates_iff.1 hnode
    rw [Cluster.finish, Bucket.get_erase] at hget
    split_ifs at hget
    exact mutates_iff.2 ⟨id', entity, stage, hget, hstage⟩

/-- The runs in which mutations of the two nodes keep apart. -/
inductive Run : Cluster → Prop
  | idle : Run .idle
  | step {c c' : Cluster} (event : Event) (hrun : Run c) (hapart : c.apart event = true)
      (hstep : c.step event = some c') : Run c'

/-- As long as the mutations of the two nodes keep apart, no operation waits for itself. -/
theorem no_circular_wait_apart (c : Cluster) (hrun : Run c) : ¬ c.CircularWait := by
  have hbusy : c.OneBusy := by
    induction hrun with
    | idle => exact ⟨true, fun node ⟨e, he, _⟩ => absurd he List.not_mem_nil⟩
    | step event _ hapart hstep ih => exact ih.step hapart hstep
  obtain ⟨busy, hbusy⟩ := hbusy
  exact no_circularWait hbusy

/-- A mutation of `f` that waits for a delivery of `f` to the other node. -/
theorem no_circular_wait_apart_behind_delivery :
    let events : List Event :=
      [.deliver 1 false "f", .acquire 1, .mutate 3 false "f", .acquire 3, .call 1 5]
    ∃ c, events.foldlM step idle = some c ∧ c.WaitsFor 3 1 ∧ c.WaitsFor 1 5 ∧
      ¬ c.CircularWait := by
  intro events
  let c : Cluster := ⟨⟨[(1, .delivery false "f" (.calling 5)), (3, .mutation false "f" .locked),
    (5, .handler true 1 .waiting)], by decide⟩⟩
  have hrun : Run c := .step (.call 1 5) (.step (.acquire 3) (.step (.mutate 3 false "f")
    (.step (.acquire 1) (.step (.deliver 1 false "f") .idle rfl rfl) rfl rfl) rfl rfl)
      (by decide +kernel) rfl) rfl (by decide +kernel)
  refine ⟨c, by decide +kernel, ?_, ?_, no_circular_wait_apart c hrun⟩
  · exact ⟨.mutation false "f" .locked, .delivery false "f" (.calling 5), rfl, rfl,
      .inl ⟨.delivery false "f", rfl, by decide⟩⟩
  · exact ⟨.delivery false "f" (.calling 5), .handler true 1 .waiting, rfl, rfl,
      .inr ⟨false, "f", .waiting, rfl, rfl⟩⟩

/-- Each node delivers the notification of an earlier mutation of a file while it mutates
the file again: the mutations wait for the deliveries, these for the handlers on the other
node, and the handlers for the mutations there. -/
theorem mutations_wait_for_each_other :
    let events : List Event :=
      [.deliver 1 false "f", .acquire 1, .deliver 2 true "g", .acquire 2,
        .mutate 3 false "f", .acquire 3, .mutate 4 true "g", .acquire 4, .call 1 5, .call 2 6]
    ∃ c, events.foldlM step idle = some c ∧ c.CircularWait := by
  intro events
  let c : Cluster := ⟨⟨[(1, .delivery false "f" (.calling 5)), (2, .delivery true "g" (.calling 6)),
    (3, .mutation false "f" .locked), (4, .mutation true "g" .locked),
    (5, .handler true 1 .waiting), (6, .handler false 2 .waiting)], by decide⟩⟩
  have hlock : ∀ i j waiting blocking lock, c.operations.get i = some waiting →
      c.operations.get j = some blocking → waiting.wants = some lock → lock ∈ blocking.holds →
      c.WaitsFor i j := fun i j waiting blocking lock hi hj hwants hholds =>
    ⟨waiting, blocking, hi, hj, .inl ⟨lock, hwants, hholds⟩⟩
  have h31 : c.WaitsFor 3 1 := hlock 3 1 _ _ (.delivery false "f") rfl rfl rfl (by decide)
  have h54 : c.WaitsFor 5 4 := hlock 5 4 _ _ (.mutation true) rfl rfl rfl (by decide)
  have h42 : c.WaitsFor 4 2 := hlock 4 2 _ _ (.delivery true "g") rfl rfl rfl (by decide)
  have h63 : c.WaitsFor 6 3 := hlock 6 3 _ _ (.mutation false) rfl rfl rfl (by decide)
  have h15 : c.WaitsFor 1 5 := ⟨_, _, rfl, rfl, .inr ⟨false, "f", .waiting, rfl, rfl⟩⟩
  have h26 : c.WaitsFor 2 6 := ⟨_, _, rfl, rfl, .inr ⟨true, "g", .waiting, rfl, rfl⟩⟩
  refine ⟨c, by decide +kernel, 3, ?_⟩
  exact (((((Relation.TransGen.single h31).tail h15).tail h54).tail h42).tail h26).tail h63

end Cluster

end Proxyma.Outbox.Waiting
