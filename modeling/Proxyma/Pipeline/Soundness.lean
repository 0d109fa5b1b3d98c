import Proxyma.Pipeline.Validation

/-!
# What the checks of a definition establish

`PipelineHasCycle` is Kahn's algorithm.  `Kahn` is its loop invariant: the steps that
have been taken from the queue, and the edges that are left once they are gone.  A
step is queued when no edge into it is left, so a step on a cycle never is; and a
step that is left over in the end has a predecessor that is left over too, which
in a finite graph gives a cycle.  The order of the first queue plays no part.

The second half is about `ValidatePrefixMigration`.  Once the completed steps are the
first of the new definition, an edge from any other step starts behind them, and so
the check for retroactive dependencies has nothing to reject.
-/

namespace Proxyma

open Keyed Relation

/-! ## Cycles -/

/-- There is a connection between two steps, and its source is a real step. -/
def PipelineSchema.Linked (schema : PipelineSchema) (source target : String) : Prop :=
  source ≠ "" ∧ source ≠ initialStep ∧ source ∈ schema.stepIDs ∧ target ∈ schema.stepIDs ∧
    ∃ conn ∈ schema.connections, conn.fromStep = source ∧ conn.toStep = target

/-- The connections between steps contain a directed cycle. -/
def PipelineSchema.Cyclic (schema : PipelineSchema) : Prop :=
  ∃ step, TransGen schema.Linked step step

/-- The edges that are left into a step when some steps are gone. -/
def remaining (edges : List (String × String)) (gone : List String) (step : String) : ℕ :=
  edges.countP fun e => e.2 = step ∧ e.1 ∉ gone

/-- One edge is taken away: the inner loop of `PipelineHasCycle`. -/
def lower (acc : Bucket String ℤ × List String) (e : String × String) :
    Bucket String ℤ × List String :=
  let degree := (acc.1.get e.2).getD 0 - 1
  (acc.1.put e.2 degree, if degree = 0 then acc.2 ++ [e.2] else acc.2)

theorem visitSteps_cons (edges : List (String × String)) (rounds : ℕ) (n : String)
    (queue : List String) (inDegree : Bucket String ℤ) (visited : ℕ) :
    visitSteps edges (rounds + 1) (n :: queue) inDegree visited =
      let out := (edges.filter fun e => e.1 = n).foldl lower (inDegree, queue)
      visitSteps edges rounds out.2 out.1 (visited + 1) := rfl

/-- The loop lowers every target once, and queues those that had one edge left. -/
theorem foldl_lower {out : List (String × String)} (hnodup : (out.map Prod.snd).Nodup)
    (inDegree : Bucket String ℤ) (queue : List String) :
    (∀ v, (((out.foldl lower (inDegree, queue)).1.get v).getD 0 : ℤ) =
      (inDegree.get v).getD 0 - if v ∈ out.map Prod.snd then 1 else 0) ∧
    (out.foldl lower (inDegree, queue)).2 =
      queue ++ (out.map Prod.snd).filter fun v => (inDegree.get v).getD 0 = 1 := by
  induction out generalizing inDegree queue with
  | nil => simp
  | cons e rest ih =>
    rw [List.map_cons, List.nodup_cons] at hnodup
    obtain ⟨hfirst, hrest⟩ := hnodup
    obtain ⟨hdegree, hqueue⟩ := ih hrest (lower (inDegree, queue) e).1 (lower (inDegree, queue) e).2
    -- the targets of the other edges have kept their degrees
    have hsame : (rest.map Prod.snd).filter
          (fun v => (((lower (inDegree, queue) e).1.get v).getD 0 : ℤ) = 1) =
        (rest.map Prod.snd).filter fun v => (inDegree.get v).getD 0 = 1 := by
      refine List.filter_congr fun v hv => ?_
      have hne : v ≠ e.2 := fun h => hfirst (h ▸ hv)
      simp [lower, hne]
    refine ⟨fun v => ?_, ?_⟩
    · refine (hdegree v).trans ?_
      by_cases hv : v = e.2
      · subst hv
        simp [lower, hfirst]
      · simp only [lower, Bucket.get_put, hv, if_false, List.map_cons, List.mem_cons, false_or]
    · refine hqueue.trans ?_
      rw [hsame]
      by_cases hone : (inDegree.get e.2).getD 0 = 1
      · simp [lower, hone]
      · have hne : (inDegree.get e.2).getD 0 - 1 ≠ 0 := by omega
        simp [lower, hone, hne]

/-- The loop invariant: some steps are gone, others are queued, and these are the
steps into which no edge is left.  None of the steps that are gone is on a cycle. -/
structure Kahn (edges : List (String × String)) (ids gone queue : List String)
    (inDegree : Bucket String ℤ) : Prop where
  nodup : (gone ++ queue).Nodup
  known : gone ++ queue ⊆ ids
  degree : ∀ v, (inDegree.get v).getD 0 = remaining edges gone v
  free : ∀ v ∈ ids, v ∈ gone ++ queue ↔ remaining edges gone v = 0
  acyclic : ∀ v ∈ gone, ¬ TransGen (fun u w => (u, w) ∈ edges) v v

theorem remaining_eq_zero {edges : List (String × String)} {gone : List String} {v : String} :
    remaining edges gone v = 0 ↔ ∀ u, (u, v) ∈ edges → u ∈ gone := by
  simp only [remaining, List.countP_eq_zero, Prod.forall]
  constructor
  · intro h u hu
    simpa using h u v hu
  intro h u w hu
  by_cases hw : w = v
  · subst hw
    simpa using h u hu
  · simp [hw]

theorem remaining_append {edges : List (String × String)} (hnodup : edges.Nodup)
    {gone : List String} {n : String} (hn : n ∉ gone) (v : String) :
    remaining edges gone v =
      remaining edges (gone ++ [n]) v + if (n, v) ∈ edges then 1 else 0 := by
  unfold remaining
  rw [List.countP_eq_countP_filter_add edges _ fun e => e ≠ (n, v), List.countP_filter,
    List.countP_filter]
  congr 1
  · refine List.countP_congr fun e _ => ?_
    obtain ⟨a, b⟩ := e
    simp only [Bool.and_eq_true, decide_eq_true_eq, ne_eq, Prod.mk.injEq, List.mem_append,
      List.mem_singleton]
    tauto
  · rw [← hnodup.count, List.count]
    refine List.countP_congr fun e _ => ?_
    obtain ⟨a, b⟩ := e
    simp only [Bool.and_eq_true, decide_eq_true_eq, ne_eq, Prod.mk.injEq, Bool.not_eq_true',
      decide_eq_false_iff_not, not_not, beq_iff_eq]
    constructor
    · exact fun hedge => hedge.2
    · rintro ⟨rfl, rfl⟩
      exact ⟨⟨rfl, hn⟩, rfl, rfl⟩

variable {edges : List (String × String)} {ids gone queue : List String}
  {inDegree : Bucket String ℤ} {steps : List PipelineStep}

theorem exists_pred_of_cycle {α : Type} {r : α → α → Prop} {v : α} (h : TransGen r v v) :
    ∃ u, r u v ∧ TransGen r u u := by
  obtain ⟨u, hvu, huv⟩ := TransGen.tail'_iff.1 h
  exact ⟨u, huv, TransGen.head' huv hvu⟩

theorem Kahn.step {n : String} (hnodup : edges.Nodup) (hedges : ∀ e ∈ edges, e.2 ∈ ids)
    (h : Kahn edges ids gone (n :: queue) inDegree) :
    let out := (edges.filter fun e => e.1 = n).foldl lower (inDegree, queue)
    Kahn edges ids (gone ++ [n]) out.2 out.1 := by
  have hn : n ∉ gone := by
    intro hgone
    exact (List.nodup_append.1 h.nodup).2.2 n hgone n (by simp) rfl
  have hremaining := fun v => remaining_append hnodup hn v
  have htargets : ∀ v, v ∈ (edges.filter fun e => e.1 = n).map Prod.snd ↔ (n, v) ∈ edges := by
    intro v
    simp
  have hdistinct : ((edges.filter fun e => e.1 = n).map Prod.snd).Nodup := by
    refine (hnodup.filter _).map_on ?_
    rintro ⟨a, b⟩ hab ⟨a', b'⟩ hab' rfl
    simp only [List.mem_filter, decide_eq_true_eq] at hab hab'
    rw [hab.2, hab'.2]
  obtain ⟨hdegree, hqueue⟩ := foldl_lower hdistinct inDegree queue
  set new := ((edges.filter fun e => e.1 = n).map Prod.snd).filter
    fun v => (inDegree.get v).getD 0 = 1
  have hnew : ∀ v, v ∈ new ↔ (n, v) ∈ edges ∧ remaining edges (gone ++ [n]) v = 0 := by
    intro v
    rw [List.mem_filter, htargets, decide_eq_true_eq, h.degree, hremaining]
    constructor
    · rintro ⟨hedge, hone⟩
      rw [if_pos hedge] at hone
      exact ⟨hedge, by omega⟩
    · rintro ⟨hedge, hzero⟩
      exact ⟨hedge, by rw [if_pos hedge, hzero]; rfl⟩
  have hfree : ∀ v ∈ gone ++ n :: queue, (n, v) ∉ edges := by
    intro v hv hedge
    have hzero := (h.free v (h.known hv)).1 hv
    rw [hremaining, if_pos hedge] at hzero
    omega
  have hsplit : gone ++ [n] ++ (queue ++ new) = (gone ++ n :: queue) ++ new := by simp
  dsimp only
  rw [hqueue]
  refine ⟨?_, ?_, fun v => ?_, fun v hv => ?_, fun v hv hcycle => ?_⟩
  · rw [hsplit]
    refine List.nodup_append.2 ⟨h.nodup, hdistinct.filter _, ?_⟩
    rintro v hv _ hv' rfl
    exact hfree v hv ((hnew v).1 hv').1
  · rw [hsplit]
    refine List.append_subset.2 ⟨h.known, fun v hv => ?_⟩
    exact hedges (n, v) ((hnew v).1 hv).1
  · have hleft := hremaining v
    rw [hdegree, h.degree, if_congr (htargets v) rfl rfl]
    split_ifs at hleft ⊢ <;> omega
  · rw [hsplit, List.mem_append, hnew, h.free v hv, hremaining]
    by_cases hedge : (n, v) ∈ edges
    · simp [hedge]
    · simp [hedge]
  · rcases List.mem_append.1 hv with hgone | hlast
    · exact h.acyclic v hgone hcycle
    obtain rfl := List.mem_singleton.1 hlast
    obtain ⟨u, hu, hcycle'⟩ := exists_pred_of_cycle hcycle
    -- no edge was left into the step, so its predecessors are gone
    have hzero := (h.free v (h.known (by simp))).1 (by simp)
    exact h.acyclic u (remaining_eq_zero.1 hzero u hu) hcycle'

/-- The loop ends with an empty queue; enough rounds are one for each step. -/
theorem Kahn.visits (hnodup : edges.Nodup) (hedges : ∀ e ∈ edges, e.2 ∈ ids) (rounds : ℕ)
    (hrounds : ids.length ≤ gone.length + rounds) (h : Kahn edges ids gone queue inDegree) :
    ∃ all inDegree', Kahn edges ids all [] inDegree' ∧
      visitSteps edges rounds queue inDegree gone.length = all.length := by
  have hlength := (h.nodup.subperm h.known).length_le
  rw [List.length_append] at hlength
  induction rounds generalizing gone queue inDegree with
  | zero =>
    obtain rfl : queue = [] := List.eq_nil_of_length_eq_zero (by omega)
    exact ⟨gone, inDegree, h, rfl⟩
  | succ rounds ih =>
    rcases queue with _ | ⟨n, queue⟩
    · exact ⟨gone, inDegree, h, rfl⟩
    have hstep := h.step hnodup hedges
    have hlength' := (hstep.nodup.subperm hstep.known).length_le
    rw [List.length_append] at hlength'
    obtain ⟨all, inDegree', hall, hvisited⟩ := ih (by simp; omega) hstep hlength'
    refine ⟨all, inDegree', hall, ?_⟩
    rw [visitSteps_cons, ← hvisited]
    simp

/-- If every step of a finite set that is not empty has a predecessor in it, there is
a cycle. -/
theorem exists_cycle {α : Type} {r : α → α → Prop} {left : Set α} (hfinite : left.Finite)
    {v : α} (hv : v ∈ left) (hpred : ∀ w ∈ left, ∃ u ∈ left, r u w) : ∃ w, TransGen r w w := by
  by_contra hacyclic
  have : IsStrictOrder α (TransGen r) :=
    { irrefl := not_exists.1 hacyclic, trans := fun _ _ _ => TransGen.trans }
  have hfounded : left.WellFoundedOn (TransGen r) := hfinite.wellFoundedOn
  obtain ⟨⟨w, hw⟩, -, hmin⟩ := hfounded.has_min Set.univ ⟨⟨v, hv⟩, trivial⟩
  obtain ⟨u, hu, huw⟩ := hpred w hw
  exact hmin ⟨u, hu⟩ trivial (TransGen.single huw)

section Schema

variable (schema : PipelineSchema)

theorem addEdge_spec {seen : List (String × String)} (hseen : seen.Nodup)
    (conn : PipelineConnection) : (addEdge schema seen conn).Nodup ∧
      ∀ u v, (u, v) ∈ addEdge schema seen conn ↔ (u, v) ∈ seen ∨
        (u ≠ "" ∧ u ≠ initialStep ∧ v ≠ "" ∧ u ∈ schema.stepIDs ∧ v ∈ schema.stepIDs ∧
          conn.fromStep = u ∧ conn.toStep = v) := by
  unfold addEdge
  split_ifs with hreal hknown hmem
  · refine ⟨hseen, fun u v => ⟨.inl, fun h => h.resolve_right ?_⟩⟩
    rintro ⟨hu, hinitial, hv, -, -, rfl, rfl⟩
    tauto
  · refine ⟨hseen, fun u v => ⟨.inl, fun h => h.resolve_right ?_⟩⟩
    rintro ⟨-, -, -, hu, hv, rfl, rfl⟩
    tauto
  · refine ⟨hseen, fun u v => ⟨.inl, ?_⟩⟩
    rintro (h | ⟨-, -, -, -, -, rfl, rfl⟩)
    · exact h
    · exact hmem
  · refine ⟨List.nodup_append.2 ⟨hseen, by simp, ?_⟩, fun u v => ?_⟩
    · rintro _ ha _ hb rfl
      exact hmem (List.mem_singleton.1 hb ▸ ha)
    · simp only [List.mem_append, List.mem_singleton, Prod.mk.injEq]
      constructor
      · rintro (h | ⟨rfl, rfl⟩) <;> tauto
      · rintro (h | ⟨-, -, -, -, -, rfl, rfl⟩) <;> tauto

/-- The edges are the connections between steps, each once; those into a step without
an identifier are left out. -/
theorem cycleEdges_spec : (cycleEdges schema).Nodup ∧
    ∀ u v, (u, v) ∈ cycleEdges schema ↔ schema.Linked u v ∧ v ≠ "" := by
  have hfold : ∀ (connections : List PipelineConnection) (seen : List (String × String)),
      seen.Nodup → (connections.foldl (addEdge schema) seen).Nodup ∧
        ∀ u v, (u, v) ∈ connections.foldl (addEdge schema) seen ↔ (u, v) ∈ seen ∨
          ∃ conn ∈ connections, u ≠ "" ∧ u ≠ initialStep ∧ v ≠ "" ∧ u ∈ schema.stepIDs ∧
            v ∈ schema.stepIDs ∧ conn.fromStep = u ∧ conn.toStep = v := by
    intro connections
    induction connections with
    | nil => exact fun seen hseen => ⟨hseen, by simp⟩
    | cons conn rest ih =>
      intro seen hseen
      obtain ⟨hadd, hmem⟩ := addEdge_spec schema hseen conn
      obtain ⟨hnodup, hiff⟩ := ih _ hadd
      refine ⟨hnodup, fun u v => (hiff u v).trans ?_⟩
      rw [hmem, List.exists_mem_cons_iff, or_assoc]
  obtain ⟨hnodup, hiff⟩ := hfold schema.connections [] List.nodup_nil
  refine ⟨hnodup, fun u v => (hiff u v).trans ?_⟩
  simp only [List.not_mem_nil, false_or, PipelineSchema.Linked]
  constructor
  · rintro ⟨conn, hconn, hu, hinitial, hv, hsource, htarget, hconn'⟩
    exact ⟨⟨hu, hinitial, hsource, htarget, conn, hconn, hconn'⟩, hv⟩
  · rintro ⟨⟨hu, hinitial, hsource, htarget, conn, hconn, hconn'⟩, hv⟩
    exact ⟨conn, hconn, hu, hinitial, hv, hsource, htarget, hconn'⟩

/-- A step on a cycle has a successor, so it has an identifier. -/
theorem cyclic_iff :
    schema.Cyclic ↔ ∃ step, TransGen (fun u v => (u, v) ∈ cycleEdges schema) step step := by
  have hedge := (cycleEdges_spec schema).2
  constructor
  · rintro ⟨step, hcycle⟩
    refine ⟨step, ?_⟩
    have hpath : ∀ {u}, TransGen schema.Linked u step →
        TransGen (fun u v => (u, v) ∈ cycleEdges schema) u step := by
      intro u hu
      induction hu using TransGen.head_induction_on with
      | single hlink =>
        obtain ⟨w, hfirst, -⟩ := TransGen.head'_iff.1 hcycle
        exact .single ((hedge _ _).2 ⟨hlink, hfirst.1⟩)
      | head hlink hrest ih =>
        obtain ⟨w, hnext, -⟩ := TransGen.head'_iff.1 hrest
        exact .head ((hedge _ _).2 ⟨hlink, hnext.1⟩) ih
    exact hpath hcycle
  · rintro ⟨step, hcycle⟩
    exact ⟨step, TransGen.mono (fun u v h => ((hedge u v).1 h).1) _ _ hcycle⟩

theorem inDegrees_spec (v : String) :
    (inDegrees schema).get v =
      if v ∈ schema.stepIDs then some (remaining (cycleEdges schema) [] v : ℤ) else none := by
  have htargets : ∀ e ∈ cycleEdges schema, e.2 ∈ schema.stepIDs := by
    rintro ⟨u, w⟩ he
    exact (((cycleEdges_spec schema).2 u w).1 he).1.2.2.2.1
  have hfold : ∀ (edges : List (String × String)) (inDegree : Bucket String ℤ),
      (∀ e ∈ edges, (inDegree.get e.2).isSome) → (edges.foldl (fun inDegree edge =>
        inDegree.put edge.2 ((inDegree.get edge.2).getD 0 + 1)) inDegree).get v =
          (inDegree.get v).map fun degree : ℤ => degree + (remaining edges [] v : ℤ) := by
    intro edges
    induction edges with
    | nil => simp [remaining]
    | cons e rest ih =>
      intro inDegree hsome
      obtain ⟨degree, hdegree⟩ := Option.isSome_iff_exists.1 (hsome e (by simp))
      rw [List.foldl_cons, ih _ fun e' he' => ?_, Bucket.get_put, hdegree]
      · by_cases hv : v = e.2
        · subst hv
          simp [remaining, hdegree]
          ring
        · simp [remaining, hv, Ne.symm hv]
      · rw [Bucket.get_put]
        split_ifs
        · rfl
        · exact hsome e' (by simp [he'])
  unfold inDegrees
  rw [hfold _ _ fun e he => by simp [htargets e he], Bucket.get_putAll]
  split_ifs <;> simp

/-- The first queue of `PipelineHasCycle`, in the order of the keys. -/
def cycleSources : List String :=
  ((inDegrees schema).entries.filter fun e => e.2 = 0).map Prod.fst

theorem kahn_start (hqueue : queue.Perm (cycleSources schema)) :
    Kahn (cycleEdges schema) schema.stepIDs [] queue (inDegrees schema) := by
  have hmem : ∀ v, v ∈ queue ↔
      v ∈ schema.stepIDs ∧ remaining (cycleEdges schema) [] v = 0 := by
    intro v
    rw [hqueue.mem_iff, cycleSources]
    simp only [List.mem_map, List.mem_filter, decide_eq_true_eq, Prod.exists, Bucket.mem_entries,
      inDegrees_spec]
    constructor
    · rintro ⟨w, degree, ⟨hget, hzero⟩, rfl⟩
      split_ifs at hget with hids
      exact ⟨hids, by simpa [hzero] using hget⟩
    · rintro ⟨hids, hzero⟩
      exact ⟨v, 0, ⟨by simp [hids, hzero], rfl⟩, rfl⟩
  refine ⟨?_, fun v hv => ((hmem v).1 hv).1, fun v => ?_, fun v hv => ?_, by simp⟩
  · have hsources : (cycleSources schema).Nodup :=
      List.pairwise_map.2 (((inDegrees schema).sorted.filter _).imp fun h => ne_of_lt h)
    simpa using hqueue.nodup_iff.2 hsources
  · rw [inDegrees_spec]
    split_ifs with hv
    · rfl
    · have hnone : remaining (cycleEdges schema) [] v = 0 := remaining_eq_zero.2 fun u hu =>
        absurd (((cycleEdges_spec schema).2 u v).1 hu).1.2.2.2.1 hv
      rw [hnone]
      rfl
  · simpa [hv] using hmem v

variable {schema}

/-- `PipelineHasCycle` finds a cycle exactly if there is one, in whatever order the
first queue is filled. -/
theorem cycle_detection_exact (hdistinct : schema.stepIDs.Nodup) :
    (pipelineHasCycle schema = true ↔ schema.Cyclic) ∧
      ∀ queue, queue.Perm (cycleSources schema) →
        (visitSteps (cycleEdges schema) (inDegrees schema).entries.length queue
          (inDegrees schema) 0 < schema.steps.length ↔ schema.Cyclic) := by
  have hexact : ∀ queue, queue.Perm (cycleSources schema) →
      (visitSteps (cycleEdges schema) (inDegrees schema).entries.length queue
        (inDegrees schema) 0 < schema.steps.length ↔ schema.Cyclic) := by
    intro queue hqueue
    obtain ⟨hnodup, hedge⟩ := cycleEdges_spec schema
    have hends : ∀ u v, (u, v) ∈ cycleEdges schema → u ∈ schema.stepIDs ∧ v ∈ schema.stepIDs := by
      intro u v he
      obtain ⟨⟨-, -, hu, hv, -⟩, -⟩ := (hedge u v).1 he
      exact ⟨hu, hv⟩
    have hrounds : schema.stepIDs.length ≤
        ([] : List String).length + (inDegrees schema).entries.length := by
      have hkeys : schema.stepIDs ⊆ (inDegrees schema).keys := by
        intro v hv
        rw [Bucket.mem_keys, inDegrees_spec, if_pos hv]
        exact ⟨_, rfl⟩
      simpa [Bucket.keys] using (hdistinct.subperm hkeys).length_le
    obtain ⟨all, inDegree, hall, hvisited⟩ := (kahn_start schema hqueue).visits hnodup
      (fun e he => (hends e.1 e.2 he).2) _ hrounds
    have hsteps : schema.steps.length = schema.stepIDs.length := by
      simp [PipelineSchema.stepIDs]
    rw [hsteps, cyclic_iff, show visitSteps _ _ _ _ 0 = all.length from hvisited]
    constructor
    · intro hless
      -- a step that is left over has a predecessor that is left over
      obtain ⟨v, hv, hleft⟩ : ∃ v ∈ schema.stepIDs, v ∉ all := by
        by_contra hnone
        push Not at hnone
        have hle := (hdistinct.subperm hnone).length_le
        omega
      have hfinite : {v | v ∈ schema.stepIDs ∧ v ∉ all}.Finite :=
        (List.finite_toSet schema.stepIDs).subset fun v hv => hv.1
      refine exists_cycle hfinite ⟨hv, hleft⟩ fun w hw => ?_
      have hremaining : remaining (cycleEdges schema) all w ≠ 0 := by
        intro hzero
        have hgone := (hall.free w hw.1).2 hzero
        exact hw.2 (by simpa using hgone)
      rw [Ne, remaining_eq_zero] at hremaining
      push Not at hremaining
      obtain ⟨u, hu, hleft'⟩ := hremaining
      exact ⟨u, ⟨(hends u w hu).1, hleft'⟩, hu⟩
    · rintro ⟨v, hcycle⟩
      have hv : v ∈ schema.stepIDs := by
        obtain ⟨u, hu, -⟩ := exists_pred_of_cycle hcycle
        exact (hends u v hu).2
      have hlarger : (v :: all).Nodup :=
        List.nodup_cons.2 ⟨fun h => hall.acyclic v h hcycle, by simpa using hall.nodup⟩
      have hsubset : v :: all ⊆ schema.stepIDs :=
        List.cons_subset.2 ⟨hv, fun w hw => hall.known (by simpa using hw)⟩
      exact (hlarger.subperm hsubset).length_le
  refine ⟨?_, hexact⟩
  rw [← hexact _ (List.Perm.refl _), pipelineHasCycle, decide_eq_true_eq]
  rfl

end Schema

/-- Two steps that wait for each other. -/
def mutualSchema : PipelineSchema where
  id := "p"
  version := 1
  steps := [{ id := "a", service := "f" }, { id := "b", service := "g" }]
  connections := [⟨"a", "out", "b", "in"⟩, ⟨"b", "out", "a", "in"⟩]

theorem cycle_detection_exact_mutual : pipelineHasCycle mutualSchema = true ∧ mutualSchema.Cyclic :=
  ⟨by decide +kernel, (cycle_detection_exact (by decide)).1.1 (by decide +kernel)⟩

/-! ## Migrations -/

/-- What a task relies on that goes on behind its first `k` steps with an updated
definition. -/
structure ResumesSoundly (k : ℕ) (outputs : Option (List (String × JsonMap)))
    (current updated : PipelineSchema) : Prop where
  completed : ∀ i < k, ∃ a b, current.steps[i]? = some a ∧ updated.steps[i]? = some b ∧
    b.id = a.id ∧ b.service = a.service ∧ b.targetNodeID = a.targetNodeID
  distinct : updated.stepIDs.Nodup
  named : "" ∉ updated.stepIDs
  connected : ∀ conn ∈ updated.connections, conn.fromStep ≠ initialStep → conn.fromStep ≠ "" →
    ∃ i j, updated.position conn.fromStep = some i ∧ updated.position conn.toStep = some j ∧
      i < j ∧ (i < k → ∃ ports value, lookupKey (outputs.getD []) conn.fromStep = some ports ∧
        lookupKey ports conn.fromPort = some value)

/-- The third of the documented rejections. -/
def RetroactiveDependency (err : Option GoError) : Prop :=
  ∃ args, err = some (.errorf ("retroactive dependency violation: upcoming step %q " ++
    "at index %d depends on unexecuted step %q") args)

theorem not_retroactiveDependency {format : String} {args : List String}
    (h : format ≠ "retroactive dependency violation: upcoming step %q " ++
      "at index %d depends on unexecuted step %q") :
    ¬ RetroactiveDependency (some (.errorf format args)) := by
  rintro ⟨_, heq⟩
  simp only [Option.some.injEq, GoError.errorf.injEq] at heq
  exact h heq.1

section Migration

variable {completedSteps : List String} {outputs : Option (List (String × JsonMap))}
  {current updated : PipelineSchema}

/-- The steps of the prefix are compared with the last step of their identifier. -/
theorem validatePrefixIdentity_spec {i : ℕ} {completed : List String}
    (hlen : completed.length ≤ steps.length) :
    ¬ RetroactiveDependency (validatePrefixIdentity current i completed steps) ∧
    (validatePrefixIdentity current i completed steps = none → ∀ j < completed.length,
      ∃ b orig, steps[j]? = some b ∧ orig ∈ current.steps ∧ orig.id = b.id ∧
        b.service = orig.service ∧ b.targetNodeID = orig.targetNodeID) := by
  induction completed generalizing i steps with
  | nil => simp [validatePrefixIdentity, RetroactiveDependency]
  | cons completedID completed ih =>
    cases steps with
    | nil => simp at hlen
    | cons step rest =>
      unfold validatePrefixIdentity
      split_ifs with hid
      · exact ⟨not_retroactiveDependency (by decide), by simp⟩
      cases horig : current.steps.reverse.find? fun step => step.id = completedID with
      | none => exact ⟨not_retroactiveDependency (by decide), by simp⟩
      | some orig =>
        dsimp only
        split_ifs with hservice htarget
        · exact ⟨not_retroactiveDependency (by decide), by simp⟩
        · exact ⟨not_retroactiveDependency (by decide), by simp⟩
        obtain ⟨hother, hrest⟩ := @ih rest (i + 1) (by simpa using hlen)
        refine ⟨hother, fun h j hj => ?_⟩
        cases j with
        | zero =>
          have hmem : orig ∈ current.steps := by
            simpa using List.mem_of_find?_eq_some horig
          have horigID : orig.id = completedID := by simpa using List.find?_some horig
          exact ⟨step, orig, rfl, hmem, horigID.trans (not_not.1 hid).symm, not_not.1 hservice,
            not_not.1 htarget⟩
        | succ j => exact hrest h j (by simpa using hj)

theorem validateUpdatedSteps_spec {seen : List String} (hseen : seen.Nodup) :
    ¬ RetroactiveDependency (validateUpdatedSteps seen steps) ∧
    (validateUpdatedSteps seen steps = none →
      (seen ++ steps.map PipelineStep.id).Nodup ∧ "" ∉ steps.map PipelineStep.id) := by
  induction steps generalizing seen with
  | nil => simpa [validateUpdatedSteps, RetroactiveDependency] using hseen
  | cons step rest ih =>
    unfold validateUpdatedSteps
    split_ifs with hid hnew
    · exact ⟨not_retroactiveDependency (by decide), by simp⟩
    · exact ⟨not_retroactiveDependency (by decide), by simp⟩
    have hseen' : (seen ++ [step.id]).Nodup := by
      simpa [List.nodup_append, hseen] using fun a ha => ne_of_mem_of_not_mem ha hnew
    obtain ⟨hother, hrest⟩ := ih hseen'
    refine ⟨hother, fun h => ?_⟩
    obtain ⟨hnodup, hnamed⟩ := hrest h
    exact ⟨by simpa using hnodup, by simpa [Ne.symm hid] using hnamed⟩

/-- A source that is not completed comes behind the completed steps, so that its
target is more than one step behind them. -/
theorem validateUpdatedConnection_spec
    (hpre : updated.stepIDs.take completedSteps.length = completedSteps)
    (conn : PipelineConnection) :
    ¬ RetroactiveDependency (validateUpdatedConnection completedSteps outputs updated conn) ∧
    (validateUpdatedConnection completedSteps outputs updated conn = none →
      conn.fromStep ≠ initialStep → conn.fromStep ≠ "" →
        ∃ i j, updated.position conn.fromStep = some i ∧ updated.position conn.toStep = some j ∧
          i < j ∧ (i < completedSteps.length → ∃ ports value,
            lookupKey (outputs.getD []) conn.fromStep = some ports ∧
              lookupKey ports conn.fromPort = some value)) := by
  unfold validateUpdatedConnection
  by_cases hinitial : conn.fromStep = initialStep ∨ conn.fromStep = ""
  · rw [if_pos hinitial]
    exact ⟨by simp [RetroactiveDependency], by tauto⟩
  rw [if_neg hinitial]
  rcases hfrom : updated.position conn.fromStep with _ | i
  · exact ⟨not_retroactiveDependency (by decide), by simp⟩
  rcases hto : updated.position conn.toStep with _ | j
  · exact ⟨not_retroactiveDependency (by decide), by simp⟩
  have hearly : i < completedSteps.length → conn.fromStep ∈ completedSteps := by
    intro hi
    obtain ⟨step, hstep, hid⟩ := PipelineSchema.position_eq_some hfrom
    rw [← hpre, List.mem_iff_getElem?]
    exact ⟨i, by simp [PipelineSchema.stepIDs, hi, hstep, hid]⟩
  dsimp only
  by_cases horder : j ≤ i
  · rw [if_pos horder]
    exact ⟨not_retroactiveDependency (by decide), by simp⟩
  rw [if_neg horder]
  by_cases hcompleted : conn.fromStep ∈ completedSteps
  · rw [if_pos hcompleted]
    rcases hports : lookupKey (outputs.getD []) conn.fromStep with _ | ports
    · exact ⟨not_retroactiveDependency (by decide), by simp⟩
    dsimp only
    rcases hvalue : lookupKey ports conn.fromPort with _ | value
    · exact ⟨not_retroactiveDependency (by decide), by simp⟩
    exact ⟨by simp [RetroactiveDependency], fun _ _ _ =>
      ⟨i, j, rfl, rfl, by omega, fun _ => ⟨ports, value, rfl, hvalue⟩⟩⟩
  · have hi : completedSteps.length ≤ i := not_lt.1 fun hi => hcompleted (hearly hi)
    rw [if_neg hcompleted, if_neg (by omega)]
    exact ⟨by simp [RetroactiveDependency], fun _ _ _ =>
      ⟨i, j, rfl, rfl, by omega, fun hi' => absurd hi' (by omega)⟩⟩

/-- A migration that is accepted is sound, if the steps of the current definition that
repeat the identifier of one of the first `k` do not differ from it.  No migration is
rejected for a retroactive dependency. -/
theorem prefix_migration_sound {k : ℕ} (hk : k ≤ current.steps.length)
    (hrepeated : ∀ i < k, ∀ a b, current.steps[i]? = some a → b ∈ current.steps → b.id = a.id →
      b.service = a.service ∧ b.targetNodeID = a.targetNodeID) :
    (validatePrefixMigration (current.stepIDs.take k) outputs current updated = none →
      ResumesSoundly k outputs current updated) ∧
    ¬ RetroactiveDependency
      (validatePrefixMigration (current.stepIDs.take k) outputs current updated) := by
  have hlength : (current.stepIDs.take k).length = k := by
    simpa [PipelineSchema.stepIDs] using hk
  unfold validatePrefixMigration
  split_ifs with hid hdeleted hversion hempty hcycle hshort
  iterate 6
    · exact ⟨by simp, not_retroactiveDependency (by decide)⟩
  obtain ⟨hotherPrefix, hkept⟩ := @validatePrefixIdentity_spec _ current 0 _
    (not_lt.1 hshort)
  rcases hidentity : validatePrefixIdentity current 0 (current.stepIDs.take k) updated.steps with
    _ | err
  swap
  · exact ⟨by simp, by rwa [hidentity] at hotherPrefix⟩
  obtain ⟨hotherSteps, hsteps⟩ := @validateUpdatedSteps_spec updated.steps [] List.nodup_nil
  rcases hdistinct : validateUpdatedSteps [] updated.steps with _ | err
  swap
  · exact ⟨by simp, by rwa [hdistinct] at hotherSteps⟩
  have hpre : updated.stepIDs.take (current.stepIDs.take k).length =
      current.stepIDs.take k :=
    List.map_take.symm.trans (isPrefix_of_validatePrefixIdentity (not_lt.1 hshort) hidentity)
  have hconn := @validateUpdatedConnection_spec _ outputs _ hpre
  rw [hlength] at hpre hconn
  refine ⟨fun h => ⟨fun i hi => ?_, (hsteps hdistinct).1, (hsteps hdistinct).2,
    fun conn hmem => ?_⟩, ?_⟩
  · obtain ⟨b, orig, hb, horig, horigID, hservice, htarget⟩ :=
      hkept hidentity i (hlength.symm ▸ hi)
    have ha : current.steps[i]? = some current.steps[i] := List.getElem?_eq_getElem _
    have hbID : b.id = current.steps[i].id := by
      have := congrArg (·[i]?) hpre
      simpa [PipelineSchema.stepIDs, hi, hb, ha, eq_comm] using this
    obtain ⟨hservice', htarget'⟩ := hrepeated i hi _ orig ha horig (horigID.trans hbID)
    exact ⟨_, b, ha, hb, hbID, hservice.trans hservice', htarget.trans htarget'⟩
  · exact (hconn conn).2 (List.findSome?_eq_none_iff.1 h conn hmem)
  · rintro ⟨args, h⟩
    obtain ⟨conn, _, hfound⟩ := List.exists_of_findSome?_eq_some h
    exact (hconn conn).1 ⟨args, hfound⟩

end Migration

/-- A current definition with two steps of one identifier, and one without them. -/
def repeatedSchema (services : List String) : PipelineSchema where
  id := "p"
  version := 1
  steps := services.map fun service => { id := "a", service }
  connections := []

/-- The step is compared with the second one of its identifier, although it is the
first one that was completed. -/
theorem prefix_migration_repeated_step :
    validatePrefixMigration ((repeatedSchema ["f", "g"]).stepIDs.take 1) none
      (repeatedSchema ["f", "g"]) (repeatedSchema ["g"]) = none ∧
    ¬ ResumesSoundly 1 none (repeatedSchema ["f", "g"]) (repeatedSchema ["g"]) := by
  refine ⟨by decide +kernel, fun h => ?_⟩
  obtain ⟨a, b, ha, hb, _, hservice, _⟩ := h.completed 0 Nat.one_pos
  obtain rfl : { id := "a", service := "f" } = a := by simpa [repeatedSchema] using ha
  obtain rfl : { id := "a", service := "g" } = b := by simpa [repeatedSchema] using hb
  simp at hservice

theorem prefix_migration_sound_kept :
    ResumesSoundly 1 none (repeatedSchema ["f"]) (repeatedSchema ["f"]) :=
  (prefix_migration_sound (by decide) (by simp [repeatedSchema])).1 (by decide +kernel)

end Proxyma
