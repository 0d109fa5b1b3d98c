import Proxyma.Compute.Status

/-!
# Retention

A retention pass forgets retired tasks (`Forgotten`), and it changes the active
table step by step: it touches metadata, deletes finished tasks and retires
unfinished ones (`Change`).  The loops of a pass are gone through once, for the
changes they make, what they count and the order in which they evict; whatever else
is said about a pass is said about one change.

Seen from one task a sequence of changes is again one small change (`AgedAt`),
since a task leaves the active table at most once.  `Spares` is the other view of
a pass: nothing about the protected task changes, provided that it was touched at
the time of the pass.
-/

namespace Proxyma.Compute

open Keyed

/-! ## What a pass does to a task -/

/-- What retention may do to the active and the retired entry of one task. -/
inductive AgedAt : Option ServiceTaskResponse → Option ServiceTaskResponse →
    Option ServiceTaskResponse → Option ServiceTaskResponse → Prop
  | kept {active retired retired' : Option ServiceTaskResponse}
      (hretired : retired' = retired ∨ retired' = none) : AgedAt active retired active retired'
  | deleted {response : ServiceTaskResponse} {retired retired' : Option ServiceTaskResponse}
      (hterminal : isTerminalTaskStatus response.status = true)
      (hretired : retired' = retired ∨ retired' = none) :
      AgedAt (some response) retired none retired'
  | retired {response : ServiceTaskResponse} {retired retired' : Option ServiceTaskResponse}
      (hterminal : isTerminalTaskStatus response.status = false)
      (hretired : (∃ reason, retired' = some (markTaskFailedShape response reason)) ∨
        retired' = none) :
      AgedAt (some response) retired none retired'

theorem AgedAt.trans {a₁ r₁ a₂ r₂ a₃ r₃ : Option ServiceTaskResponse} (h₁ : AgedAt a₁ r₁ a₂ r₂)
    (h₂ : AgedAt a₂ r₂ a₃ r₃) : AgedAt a₁ r₁ a₃ r₃ := by
  cases h₁ with
  | kept hr₁ =>
    have hnone : ∀ {r : Option ServiceTaskResponse}, (r = r₂ ∨ r = none) → r = r₁ ∨ r = none :=
      fun h => by rcases h with rfl | rfl <;> simp_all
    cases h₂ with
    | kept hr₂ => exact .kept (hnone hr₂)
    | deleted hterminal hr₂ => exact .deleted hterminal (hnone hr₂)
    | retired hterminal hr₂ => exact .retired hterminal hr₂
  | deleted hterminal hr₁ =>
    cases h₂ with
    | kept hr₂ => exact .deleted hterminal (by rcases hr₂ with rfl | rfl <;> simp_all)
  | retired hterminal hr₁ =>
    cases h₂ with
    | kept hr₂ => exact .retired hterminal (by rcases hr₂ with rfl | rfl <;> simp_all)

theorem AgedAt.active {a r a' r' : Option ServiceTaskResponse} (h : AgedAt a r a' r') :
    a' = a ∨ a' = none := by
  cases h <;> simp

/-- What a retention pass may do to the tables. -/
structure Aged (t t' : TaskTables) : Prop where
  entry : ∀ id, AgedAt (t.statuses.get id) (t.retired.get id) (t'.statuses.get id)
    (t'.retired.get id)

variable {t₁ t₂ t₃ : TaskTables} {r : ServiceTaskResponse}

namespace Aged

variable {t : TaskTables}

/-- Changes of the metadata and of the accepted tasks do not show. -/
theorem of_eq {t' : TaskTables} (hstatuses : t'.statuses = t.statuses)
    (hretired : t'.retired = t.retired) : Aged t t' :=
  ⟨fun id => by rw [hstatuses, hretired]; exact .kept (.inl rfl)⟩

theorem refl (t : TaskTables) : Aged t t := .of_eq rfl rfl

theorem trans (h₁ : Aged t₁ t₂) (h₂ : Aged t₂ t₃) : Aged t₁ t₃ :=
  ⟨fun id => (h₁.entry id).trans (h₂.entry id)⟩

theorem touch (t : TaskTables) (id : String) (now : ℤ) : Aged t (t.touchTaskStatus id now) :=
  .of_eq rfl rfl

theorem delete {response : ServiceTaskResponse}
    (hget : t.statuses.get response.taskID = some response)
    (hterminal : isTerminalTaskStatus response.status = true) :
    Aged t (t.deleteTaskStatus response.taskID) := by
  refine ⟨fun id => ?_⟩
  simp only [TaskTables.deleteTaskStatus, Table.get_erase]
  split_ifs with hid
  · rw [hid, hget]
    exact .deleted hterminal (.inl rfl)
  · exact .kept (.inl rfl)

theorem retire {response : ServiceTaskResponse}
    (hget : t.statuses.get response.taskID = some response)
    (hterminal : isTerminalTaskStatus response.status = false) (now : ℤ) (reason : String) :
    Aged t (t.retireActiveTaskStatus response now reason) := by
  refine ⟨fun id => ?_⟩
  simp only [TaskTables.retireActiveTaskStatus, TaskTables.touchRetiredTaskStatus,
    TaskTables.deleteAccepted, TaskTables.deleteTaskStatus, Table.get_erase, Table.get_insert]
  by_cases hid : id = response.taskID
  · rw [if_pos hid, if_pos (by simpa [markTaskFailedShape] using hid), hid, hget]
    exact .retired hterminal (.inl ⟨reason, rfl⟩)
  · rw [if_neg hid, if_neg (by simpa [markTaskFailedShape] using hid)]
    exact .kept (.inl rfl)

theorem was_active {t' : TaskTables} (h : Aged t t') {id : String}
    (hactive : (t'.statuses.get id).isSome) : (t.statuses.get id).isSome := by
  rcases (h.entry id).active with heq | hnone
  · rwa [← heq]
  · simp [hnone] at hactive

end Aged

/-! ## Changes -/

/-- Nothing about a task has changed. -/
structure Spares (p : String) (t t' : TaskTables) : Prop where
  status : t'.statuses.get p = t.statuses.get p
  metadata : t'.statusMeta.get p = t.statusMeta.get p
  retired : t'.retired.get p = t.retired.get p
  accepted : t'.accepted.get p = t.accepted.get p

/-- The task was touched at the time of the pass. -/
def TouchedAt (t : TaskTables) (p : String) (now : ℤ) : Prop :=
  ∃ metadata, t.statusMeta.get p = some metadata ∧ metadata.touchedAt = now

/-- The limit of the tables and the ages at which their entries expire. -/
def limits (t : TaskTables) : ℤ × ℤ × ℤ := (t.statusLimit, t.pendingTTL, t.terminalTTL)

/-- Some retired tasks have been forgotten, but not the protected one. -/
structure Forgotten (p : String) (t t' : TaskTables) : Prop where
  statuses : t'.statuses = t.statuses
  statusMeta : t'.statusMeta = t.statusMeta
  accepted : t'.accepted = t.accepted
  limits : limits t' = limits t
  entry : ∀ id,
    (t'.retired.get id = t.retired.get id ∧ t'.retiredMeta.get id = t.retiredMeta.get id) ∨
      t'.retired.get id = none ∧ id ≠ p

/-- One change of the active table.  The protected task leaves it only when it is expired. -/
inductive Change (now : ℤ) (p : String) : TaskTables → TaskTables → Prop
  | touch {t : TaskTables} {id : String} (hnone : t.statusMeta.get id = none)
      (hactive : (t.statuses.get id).isSome) : Change now p t (t.touchTaskStatus id now)
  | delete {t : TaskTables} {response : ServiceTaskResponse}
      (hget : t.statuses.get response.taskID = some response)
      (hterminal : isTerminalTaskStatus response.status = true)
      (hleaves : t.isExpired response now = true ∨ response.taskID ≠ p) :
      Change now p t (t.deleteTaskStatus response.taskID)
  | retire {t : TaskTables} {response : ServiceTaskResponse} (reason : String)
      (hget : t.statuses.get response.taskID = some response)
      (hterminal : isTerminalTaskStatus response.status = false)
      (hleaves : t.isExpired response now = true ∨ response.taskID ≠ p) :
      Change now p t (t.retireActiveTaskStatus response now reason)

section Passes

open TaskTables

variable {now : ℤ} {p : String} {candidates : List TaskStatusEvictionCandidate} {t t' : TaskTables}
  {response : ServiceTaskResponse}

theorem Change.aged (h : Change now p t t') : Aged t t' := by
  cases h with
  | touch hnone => exact .touch t _ now
  | delete hget hterminal hleaves => exact .delete hget hterminal
  | retire reason hget hterminal hleaves => exact .retire hget hterminal now reason

namespace Spares

variable {id : String}

theorem refl (p : String) (t : TaskTables) : Spares p t t := ⟨rfl, rfl, rfl, rfl⟩

theorem trans (h₁ : Spares p t₁ t₂) (h₂ : Spares p t₂ t₃) : Spares p t₁ t₃ :=
  ⟨h₂.status.trans h₁.status, h₂.metadata.trans h₁.metadata, h₂.retired.trans h₁.retired,
    h₂.accepted.trans h₁.accepted⟩

theorem touchedAt (h : Spares p t t') (ht : TouchedAt t p now) : TouchedAt t' p now := by
  obtain ⟨metadata, hget, htouched⟩ := ht
  exact ⟨metadata, h.metadata.trans hget, htouched⟩

end Spares

theorem Change.spares (h : Change now p t t') (ht : TouchedAt t p now) : Spares p t t' := by
  obtain ⟨metadata, hmetadata, htouched⟩ := ht
  -- the protected task is too young to expire
  have hne : ∀ {response : ServiceTaskResponse},
      t.isExpired response now = true ∨ response.taskID ≠ p → p ≠ response.taskID := by
    rintro response hleaves rfl
    exact absurd (hleaves.resolve_right fun h => h rfl) (by simp [isExpired, hmetadata, htouched])
  cases h with
  | @touch id hnone =>
    have hid : p ≠ id := by
      rintro rfl
      simp [hmetadata] at hnone
    constructor <;> simp [touchTaskStatus, touchStatusMeta, hid]
  | delete hget hterminal hleaves => constructor <;> simp [deleteTaskStatus, hne hleaves]
  | retire reason hget hterminal hleaves =>
    constructor <;>
      simp [retireActiveTaskStatus, touchRetiredTaskStatus, touchStatusMeta, deleteAccepted,
        deleteTaskStatus, markTaskFailedShape, hne hleaves]

theorem aged_of_changes (h : Relation.ReflTransGen (Change now p) t t') : Aged t t' := by
  induction h with
  | refl => exact .refl t
  | tail _ hstep ih => exact ih.trans hstep.aged

theorem spares_of_changes (h : Relation.ReflTransGen (Change now p) t t')
    (ht : TouchedAt t p now) : Spares p t t' := by
  induction h with
  | refl => exact .refl p t
  | tail _ hstep ih => exact ih.trans (hstep.spares (ih.touchedAt ht))

theorem limits_of_changes (h : Relation.ReflTransGen (Change now p) t t') :
    limits t' = limits t := by
  induction h with
  | refl => rfl
  | tail _ hstep ih =>
    rw [← ih]
    cases hstep <;> rfl

/-- When a task was touched; a pass touches a task that it meets without metadata. -/
def touchedOf (t : TaskTables) (now : ℤ) (id : String) : ℤ :=
  (t.statusMeta.get id).elim now TaskStatusMetadata.touchedAt

/-- A pass finds a task expired. -/
def expires (t : TaskTables) (response : ServiceTaskResponse) (now : ℤ) : Bool :=
  let ttl := if isTerminalTaskStatus response.status then t.terminalTTL else t.pendingTTL
  0 < ttl ∧ ttl ≤ now - touchedOf t now response.taskID

theorem expires_congr (hlimits : limits t' = limits t)
    (htouched : touchedOf t' now response.taskID = touchedOf t now response.taskID) :
    expires t' response now = expires t response now := by
  simp only [limits, Prod.mk.injEq] at hlimits
  refine decide_eq_decide.2 ?_
  rw [htouched, hlimits.2.1, hlimits.2.2]

/-- As long as a task is active, it counts as touched at the same time. -/
theorem touchedOf_of_changes (h : Relation.ReflTransGen (Change now p) t t') {id : String}
    (hactive : (t'.statuses.get id).isSome) : touchedOf t' now id = touchedOf t now id := by
  induction h with
  | refl => rfl
  | tail _ hstep ih =>
    rw [← ih (hstep.aged.was_active hactive)]
    cases hstep with
    | @touch id' hnone =>
      by_cases hid : id = id' <;> simp [touchedOf, touchTaskStatus, touchStatusMeta, hid, hnone]
    | @delete response hget =>
      by_cases hid : id = response.taskID <;> simp_all [touchedOf, deleteTaskStatus]
    | @retire response reason hget =>
      by_cases hid : id = response.taskID <;>
        simp_all [touchedOf, retireActiveTaskStatus, touchRetiredTaskStatus, deleteAccepted,
          deleteTaskStatus]

/-! ## Candidates -/

theorem length_le_unprotected (hnodup : (candidates.map TaskStatusEvictionCandidate.taskID).Nodup) :
    candidates.length ≤ (candidates.filter fun c => c.taskID ≠ p).length + 1 := by
  have hcount := List.nodup_iff_count_le_one.1 hnodup p
  rw [List.count, List.countP_map] at hcount
  have hsplit := List.length_eq_countP_add_countP (fun c => decide (c.taskID ≠ p)) (l := candidates)
  rw [List.countP_eq_length_filter] at hsplit
  have hsame : List.countP (fun c => decide ¬decide (c.taskID ≠ p) = true) candidates =
      List.countP ((· == p) ∘ TaskStatusEvictionCandidate.taskID) candidates :=
    List.countP_congr fun c _ => by simp
  omega

theorem perm_sortCandidates (p : String) (candidates : List TaskStatusEvictionCandidate) :
    (sortCandidates p candidates).Perm candidates :=
  List.perm_insertionSort _ _

/-- What the sorting of candidates preserves, and how many of them can be evicted. -/
theorem sortCandidates_spec {ids : List String} (hnodup : ids.Nodup)
    (hids : candidates.map TaskStatusEvictionCandidate.taskID = ids) (p : String) :
    ((sortCandidates p candidates).map TaskStatusEvictionCandidate.taskID).Nodup ∧
      ids.length = candidates.length ∧
      candidates.length ≤
        ((sortCandidates p candidates).filter fun c => c.taskID ≠ p).length + 1 := by
  have hperm := perm_sortCandidates p candidates
  have hsorted : ((sortCandidates p candidates).map TaskStatusEvictionCandidate.taskID).Nodup := by
    rwa [(hperm.map _).nodup_iff, hids]
  refine ⟨hsorted, by rw [← hids, List.length_map], ?_⟩
  rw [← hperm.length_eq]
  exact length_le_unprotected hsorted

theorem evictedBefore_trans {a b c : TaskStatusEvictionCandidate}
    (hab : evictedBefore p b a = false) (hbc : evictedBefore p c b = false) :
    evictedBefore p c a = false := by
  unfold evictedBefore at *
  grind

theorem evictedBefore_total (a b : TaskStatusEvictionCandidate) :
    evictedBefore p b a = false ∨ evictedBefore p a b = false := by
  unfold evictedBefore
  grind

/-- But for the protected task, the candidates are in the order in which they were touched. -/
theorem pairwise_sortCandidates : (sortCandidates p candidates).Pairwise fun a b =>
    a.taskID ≠ p → b.taskID ≠ p → a.touched ≤ b.touched := by
  have hsorted : (sortCandidates p candidates).Pairwise fun a b => !evictedBefore p b a := by
    have := Std.Total.mk (r := fun a b => (!evictedBefore p b a) = true) fun a b => by
      simpa using evictedBefore_total a b
    have := IsTrans.mk (r := fun a b => (!evictedBefore p b a) = true) fun a b c hab hbc => by
      simpa using evictedBefore_trans (by simpa using hab) (by simpa using hbc)
    exact List.pairwise_insertionSort _ _
  refine hsorted.imp fun {a b} hab ha hb => ?_
  by_contra hlt
  simp [evictedBefore, ha, hb, (not_le.1 hlt).ne, not_le.1 hlt] at hab

/-! ## The retired table -/

theorem keys_deleteRetired (t : TaskTables) (id : String) :
    (t.deleteRetired id).retired.keys = t.retired.keys.erase id :=
  t.retired.rows.keys_erase id

namespace Forgotten

theorem refl (p : String) (t : TaskTables) : Forgotten p t t :=
  ⟨rfl, rfl, rfl, rfl, fun _ => .inl ⟨rfl, rfl⟩⟩

theorem delete (h : Forgotten p t t') {id : String} (hid : id ≠ p) :
    Forgotten p t (t'.deleteRetired id) := by
  refine ⟨h.statuses, h.statusMeta, h.accepted, h.limits, fun id' => ?_⟩
  by_cases heq : id' = id
  · exact .inr ⟨by simp [deleteRetired, heq], heq ▸ hid⟩
  · simpa [deleteRetired, heq] using h.entry id'

theorem aged (h : Forgotten p t t') : Aged t t' :=
  ⟨fun id => h.statuses ▸ .kept ((h.entry id).imp And.left And.left)⟩

theorem spares (h : Forgotten p t t') : Spares p t t' :=
  ⟨by rw [h.statuses], by rw [h.statusMeta], ((h.entry p).resolve_right fun hp => hp.2 rfl).1,
    by rw [h.accepted]⟩

end Forgotten

/-- The state of the loop over the retired tasks. -/
structure ScansRetired (now : ℤ) (p : String) (t₀ t : TaskTables)
    (candidates : List TaskStatusEvictionCandidate) (pending : List String) : Prop where
  forgotten : Forgotten p t₀ t
  ids : candidates.map TaskStatusEvictionCandidate.taskID ++ pending = t.retired.keys
  fewer : t.retired.keys.length ≤ t₀.retired.keys.length
  fresh : ∀ id metadata, t₀.retiredMeta.get id = some metadata → metadata.touchedAt = now →
    t.retired.get id = t₀.retired.get id ∧ t.retiredMeta.get id = t₀.retiredMeta.get id

theorem ScansRetired.step {t₀ : TaskTables} {id : String} {rest : List String}
    (h : ScansRetired now p t₀ t candidates (id :: rest)) :
    let out := expireRetired now p (t, candidates) id
    ScansRetired now p t₀ out.1 out.2 rest := by
  simp only [expireRetired]
  split_ifs with hexpired
  · obtain ⟨hpos, hage, hid⟩ := hexpired
    have hnodup : t.retired.keys.Nodup := t.retired.rows.nodup_keys
    rw [← h.ids] at hnodup
    have hnew := (List.nodup_append.1 hnodup).2.2
    refine ⟨h.forgotten.delete hid, ?_, ?_, fun id' metadata hget htouched => ?_⟩
    · rw [keys_deleteRetired, ← h.ids, List.erase_append_right, List.erase_cons_head]
      exact fun hid => hnew id hid id List.mem_cons_self rfl
    · rw [keys_deleteRetired]
      exact List.length_erase_le.trans h.fewer
    obtain ⟨hretired, hmeta⟩ := h.fresh id' metadata hget htouched
    have hne : id' ≠ id := by
      rintro rfl
      rw [hmeta, hget, Option.getD_some, htouched] at hage
      omega
    simp [deleteRetired, hne, hretired, hmeta]
  · exact ⟨h.forgotten, by simp [← h.ids], h.fewer, h.fresh⟩

theorem ScansRetired.run {t₀ : TaskTables} {pending : List String}
    (h : ScansRetired now p t₀ t candidates pending) :
    let out := pending.foldl (expireRetired now p) (t, candidates)
    ScansRetired now p t₀ out.1 out.2 [] := by
  induction pending generalizing t candidates with
  | nil => exact h
  | cons id rest ih => exact ih h.step

theorem evictRetired_spec (n : ℕ) (candidates : List TaskStatusEvictionCandidate)
    (t t₀ : TaskTables)
    (hnodup : (candidates.map TaskStatusEvictionCandidate.taskID).Nodup)
    (hmem : ∀ c ∈ candidates, c.taskID ∈ t.retired.keys) (hforgotten : Forgotten p t₀ t)
    (hn : n ≤ (candidates.filter fun c => c.taskID ≠ p).length) :
    Forgotten p t₀ (evictRetired p n candidates t) ∧
      (evictRetired p n candidates t).retired.keys.length + n = t.retired.keys.length := by
  induction candidates generalizing n t with
  | nil =>
    obtain rfl : n = 0 := by simpa using hn
    exact ⟨hforgotten, rfl⟩
  | cons c rest ih =>
    obtain ⟨hc, hrest⟩ := List.nodup_cons.1 hnodup
    obtain ⟨hhead, htail⟩ := List.forall_mem_cons.1 hmem
    cases n with
    | zero => exact ⟨hforgotten, rfl⟩
    | succ n =>
      simp only [evictRetired]
      split_ifs with hid
      · exact ih _ t hrest htail hforgotten (by simpa [hid] using hn)
      have hlength := List.length_erase_add_one hhead
      rw [← keys_deleteRetired] at hlength
      have hothers : ∀ c' ∈ rest, c'.taskID ∈ (t.deleteRetired c.taskID).retired.keys := by
        intro c' hc'
        have hne : c'.taskID ≠ c.taskID := fun heq => hc (heq ▸ List.mem_map_of_mem hc')
        rw [keys_deleteRetired, List.mem_erase_of_ne hne]
        exact htail c' hc'
      obtain ⟨hforgotten', hcount⟩ := ih n _ hrest hothers (hforgotten.delete hid)
        (by simpa [hid] using hn)
      exact ⟨hforgotten', by omega⟩

/-- What a retention pass over the retired table does: it forgets until the table is within its
limit, and a task that was just retired only for this reason. -/
theorem pruneRetiredTaskStatuses_spec (t : TaskTables) (now : ℤ) (p : String) :
    Forgotten p t (t.pruneRetiredTaskStatuses now p) ∧
      (0 < t.statusLimit →
        ((t.pruneRetiredTaskStatuses now p).retired.keys.length : ℤ) ≤ t.statusLimit) ∧
      ∀ id metadata, t.retiredMeta.get id = some metadata → metadata.touchedAt = now →
        t.statusLimit < t.retired.keys.length ∨
          (t.pruneRetiredTaskStatuses now p).retired.get id = t.retired.get id := by
  have hstart : ScansRetired now p t t [] t.retired.keys :=
    ⟨.refl p t, rfl, le_rfl, fun _ _ _ _ => ⟨rfl, rfl⟩⟩
  have h := hstart.run
  simp only [pruneRetiredTaskStatuses]
  set s := (t.retired.keys.foldl (expireRetired now p) (t, [])).1
  set new := (t.retired.keys.foldl (expireRetired now p) (t, [])).2
  have hlimit : s.statusLimit = t.statusLimit := congrArg Prod.fst h.forgotten.limits
  have hids : new.map TaskStatusEvictionCandidate.taskID = s.retired.keys := by
    rw [← h.ids, List.append_nil]
  have hfewer : s.retired.keys.length ≤ t.retired.keys.length := h.fewer
  obtain ⟨hsorted, hlength, hmost⟩ := sortCandidates_spec
    (show s.retired.keys.Nodup from s.retired.rows.nodup_keys) hids p
  rw [hlimit]
  split_ifs with hfits
  · exact ⟨h.forgotten, fun hpos => by omega, fun id metadata hget htouched =>
      .inr (h.fresh id metadata hget htouched).1⟩
  have hmem : ∀ c ∈ sortCandidates p new, c.taskID ∈ s.retired.keys := fun c hc => by
    rw [← hids]
    exact List.mem_map_of_mem ((perm_sortCandidates p new).mem_iff.1 hc)
  obtain ⟨hforgotten, hleft⟩ := evictRetired_spec (new.length - t.statusLimit).toNat
    (sortCandidates p new) s t hsorted hmem h.forgotten (by omega)
  exact ⟨hforgotten, fun hpos => by omega, fun id metadata hget htouched => .inl (by omega)⟩

/-! ## The active table -/

theorem mem_responses : r ∈ t.responses ↔ t.statuses.get r.taskID = some r := by
  simp only [responses, List.mem_map, Prod.exists, exists_eq_right, Bucket.mem_entries]
  constructor
  · rintro ⟨id, hget⟩
    rwa [t.statuses.keyed id r hget]
  · exact fun hget => ⟨r.taskID, hget⟩

theorem map_responses (t : TaskTables) :
    t.responses.map ServiceTaskResponse.taskID = t.statuses.keys := by
  rw [responses, List.map_map]
  exact List.map_congr_left fun e he => t.statuses.keyed e.1 e.2 (Bucket.mem_entries.1 he)

theorem nodup_keys (t : TaskTables) : t.statuses.keys.Nodup := t.statuses.rows.nodup_keys

theorem mem_keys {id : String} : id ∈ t.statuses.keys ↔ (t.statuses.get id).isSome :=
  Bucket.mem_keys.trans Option.isSome_iff_exists.symm

/-- The state of the loop over the active tasks. -/
structure Scans (now : ℤ) (p : String) (t₀ t : TaskTables)
    (candidates : List TaskStatusEvictionCandidate) (pending : List ServiceTaskResponse) :
    Prop where
  changes : Relation.ReflTransGen (Change now p) t₀ t
  ids : candidates.map TaskStatusEvictionCandidate.taskID ++
    pending.map ServiceTaskResponse.taskID = t.statuses.keys
  active : ∀ r ∈ pending, t.statuses.get r.taskID = some r
  known : ∀ c ∈ candidates, c.touched = touchedOf t₀ now c.taskID ∧
    ∃ r, t.statuses.get c.taskID = some r ∧ c.terminal = isTerminalTaskStatus r.status
  young : ∀ r, t₀.statuses.get r.taskID = some r → expires t₀ r now = false →
    t.statuses.get r.taskID = some r

namespace Scans

variable {t₀ : TaskTables} {rest : List ServiceTaskResponse}

theorem distinct (h : Scans now p t₀ t candidates (response :: rest)) :
    (∀ c ∈ candidates, c.taskID ≠ response.taskID) ∧ ∀ r ∈ rest, r.taskID ≠ response.taskID := by
  have hnodup := nodup_keys t
  rw [← h.ids, List.map_cons, List.nodup_middle, List.nodup_cons, List.mem_append, not_or] at hnodup
  exact ⟨fun c hc heq => hnodup.1.1 (heq ▸ List.mem_map_of_mem hc),
    fun r hr heq => hnodup.1.2 (heq ▸ List.mem_map_of_mem hr)⟩

theorem leave (h : Scans now p t₀ t candidates (response :: rest))
    (hexpired : expires t₀ response now = true)
    (hchanges : Relation.ReflTransGen (Change now p) t t')
    (hstatuses : t'.statuses = t.statuses.erase response.taskID) :
    Scans now p t₀ t' candidates rest := by
  obtain ⟨hcandidates, hrest⟩ := h.distinct
  refine ⟨h.changes.trans hchanges, ?_, fun r hr => ?_, fun c hc => ?_, fun r hr hyoung => ?_⟩
  · rw [hstatuses, show (t.statuses.erase response.taskID).keys = _ from Bucket.keys_erase _ _,
      ← Table.keys, ← h.ids, List.erase_append_right, List.map_cons, List.erase_cons_head]
    simpa using hcandidates
  · rw [hstatuses, Table.get_erase, if_neg (hrest r hr)]
    exact h.active r (List.mem_cons_of_mem _ hr)
  · rw [hstatuses, Table.get_erase, if_neg (hcandidates c hc)]
    exact h.known c hc
  have hstays := h.young r hr hyoung
  rw [hstatuses, Table.get_erase, if_neg, hstays]
  intro hid
  rw [hid, h.active response List.mem_cons_self] at hstays
  cases hstays
  simp [hexpired] at hyoung

theorem stay (h : Scans now p t₀ t candidates (response :: rest)) (sequence : ℕ)
    (hchanges : Relation.ReflTransGen (Change now p) t t') (hstatuses : t'.statuses = t.statuses) :
    Scans now p t₀ t' (candidates ++ [⟨response.taskID, isTerminalTaskStatus response.status,
      touchedOf t₀ now response.taskID, sequence⟩]) rest := by
  refine ⟨h.changes.trans hchanges, ?_, fun r hr => ?_, fun c hc => ?_, fun r hr hyoung => ?_⟩
  · rw [hstatuses, ← h.ids]
    simp
  · rw [hstatuses]
    exact h.active r (List.mem_cons_of_mem _ hr)
  · rw [hstatuses]
    rcases List.mem_append.1 hc with hc | hc
    · exact h.known c hc
    · obtain rfl := List.mem_singleton.1 hc
      exact ⟨rfl, response, h.active response List.mem_cons_self, rfl⟩
  · rw [hstatuses]
    exact h.young r hr hyoung

theorem step (h : Scans now p t₀ t candidates (response :: rest)) :
    let out := expireTaskStatus now (t, candidates) response
    Scans now p t₀ out.1 out.2 rest := by
  have hactive := h.active response List.mem_cons_self
  -- the metadata is there, or it is made up
  have hensure : Relation.ReflTransGen (Change now p) t (t.ensureMetadata response.taskID now) ∧
      (t.ensureMetadata response.taskID now).statuses = t.statuses ∧
      ∃ metadata, (t.ensureMetadata response.taskID now).statusMeta.get response.taskID =
        some metadata := by
    unfold ensureMetadata
    cases hmeta : t.statusMeta.get response.taskID with
    | none => exact ⟨.single (.touch hmeta (by rw [hactive]; rfl)), rfl,
        by simp [touchTaskStatus, touchStatusMeta]⟩
    | some metadata => exact ⟨.refl, rfl, by simp [hmeta]⟩
  obtain ⟨hchanges, hstatuses, metadata, hmetadata⟩ := hensure
  simp only [expireTaskStatus]
  set s := t.ensureMetadata response.taskID now
  have hget : s.statuses.get response.taskID = some response := by rw [hstatuses, hactive]
  have htouched := touchedOf_of_changes (h.changes.trans hchanges) (by rw [hget]; rfl)
  have hexpires : s.isExpired response now = expires t₀ response now := by
    rw [← expires_congr (limits_of_changes (h.changes.trans hchanges)) htouched]
    simp [isExpired, expires, touchedOf, hmetadata]
  have hat : ((s.statusMeta.get response.taskID).getD {}).touchedAt =
      touchedOf t₀ now response.taskID := by
    rw [← htouched]
    simp [touchedOf, hmetadata]
  split_ifs with hexpired hterminal
  · refine h.leave (hexpires ▸ hexpired) (hchanges.tail (.delete hget hterminal (.inl hexpired))) ?_
    rw [deleteTaskStatus, hstatuses]
  · refine h.leave (hexpires ▸ hexpired) (hchanges.tail
      (.retire reasonExpired hget (by simpa using hterminal) (.inl hexpired))) ?_
    rw [← hstatuses]
    rfl
  · rw [hat]
    exact h.stay _ hchanges hstatuses

theorem run {pending : List ServiceTaskResponse} (h : Scans now p t₀ t candidates pending) :
    let out := pending.foldl (expireTaskStatus now) (t, candidates)
    Scans now p t₀ out.1 out.2 [] := by
  induction pending generalizing t candidates with
  | nil => exact h
  | cons response rest ih => exact ih h.step

end Scans

/-- The loop over the sorted candidates, all of which are active. -/
theorem evictTaskStatuses_spec (now : ℤ) (n : ℕ) (candidates : List TaskStatusEvictionCandidate)
    (t : TaskTables) (hnodup : (candidates.map TaskStatusEvictionCandidate.taskID).Nodup)
    (hactive : ∀ c ∈ candidates, ∃ r, t.statuses.get c.taskID = some r ∧
      c.terminal = isTerminalTaskStatus r.status)
    (hn : n ≤ (candidates.filter fun c => c.taskID ≠ p).length)
    (hsorted : candidates.Pairwise fun a b =>
      a.taskID ≠ p → b.taskID ≠ p → a.touched ≤ b.touched) :
    let out := evictTaskStatuses now p n candidates t
    Relation.ReflTransGen (Change now p) t out ∧
      out.statuses.keys.length + n = t.statuses.keys.length ∧
      (∀ id ∉ candidates.map TaskStatusEvictionCandidate.taskID,
        out.statuses.get id = t.statuses.get id) ∧
      ∀ a ∈ candidates, ∀ b ∈ candidates, out.statuses.get a.taskID = none →
        (out.statuses.get b.taskID).isSome → b.taskID ≠ p → a.touched ≤ b.touched := by
  induction candidates generalizing n t with
  | nil =>
    obtain rfl : n = 0 := by simpa using hn
    exact ⟨.refl, rfl, by simp [evictTaskStatuses], by simp⟩
  | cons c rest ih =>
    obtain ⟨hc, hrest⟩ := List.nodup_cons.1 hnodup
    obtain ⟨hfirst, hsorted⟩ := List.pairwise_cons.1 hsorted
    obtain ⟨⟨response, hget, hterminal⟩, hactive'⟩ := List.forall_mem_cons.1 hactive
    have hid : response.taskID = c.taskID := Table.key_of_get hget
    cases n with
    | zero =>
      refine ⟨.refl, rfl, fun _ _ => rfl, fun a ha b hb hgone => ?_⟩
      obtain ⟨r, hr, -⟩ := hactive a ha
      simp [show evictTaskStatuses now p 0 (c :: rest) t = t from rfl, hr] at hgone
    | succ n =>
      simp only [evictTaskStatuses]
      split_ifs with hp
      · -- the protected task is passed over, and it is still there
        obtain ⟨hchanges, hcount, hothers, horder⟩ := ih (n + 1) t hrest hactive'
          (by simpa [hp] using hn) hsorted
        refine ⟨hchanges, hcount, fun id hmem => hothers id fun h => hmem (.tail _ h),
          fun a ha b hb hgone hsome hne => ?_⟩
        rcases List.mem_cons.1 ha with rfl | ha
        · simp [hothers _ hc, hget] at hgone
        · refine horder a ha b ((List.mem_cons.1 hb).resolve_left ?_) hgone hsome hne
          rintro rfl
          exact hne hp
      · rw [hget]
        dsimp only
        set s := t.evictTaskStatus c response now with hs
        have hchange : Change now p t s := by
          rw [← hid] at hget hp
          rw [hs, evictTaskStatus, hterminal, ← hid]
          split_ifs with hfinished
          · exact .delete hget hfinished (.inr hp)
          · exact .retire _ hget (by simpa using hfinished) (.inr hp)
        have hstatuses : s.statuses = t.statuses.erase c.taskID := by
          rw [hs, evictTaskStatus]
          split_ifs
          · rfl
          · rw [← hid]
            rfl
        have hlength : s.statuses.keys.length + 1 = t.statuses.keys.length := by
          rw [hstatuses, show (t.statuses.erase c.taskID).keys = _ from Bucket.keys_erase _ _]
          exact List.length_erase_add_one (mem_keys.2 (by rw [hget]; rfl))
        have hkept : ∀ id ≠ c.taskID, s.statuses.get id = t.statuses.get id :=
          fun id hne => by simp [hstatuses, hne]
        obtain ⟨hchanges, hcount, hothers, horder⟩ := ih n s hrest (fun c' hc' => by
          rw [hkept _ fun heq => hc (heq ▸ List.mem_map_of_mem hc')]
          exact hactive' c' hc') (by simpa [hp] using hn) hsorted
        refine ⟨.head hchange hchanges, by omega, fun id hmem => ?_,
          fun a ha b hb hgone hsome hne => ?_⟩
        · rw [List.map_cons, List.mem_cons, not_or] at hmem
          rw [hothers id hmem.2, hkept id hmem.1]
        have hb' : b ∈ rest := by
          refine (List.mem_cons.1 hb).resolve_left ?_
          rintro rfl
          rw [hothers _ hc, hstatuses] at hsome
          simp at hsome
        rcases List.mem_cons.1 ha with rfl | ha
        · exact hfirst b hb' hp hne
        · exact horder a ha b hb' hgone hsome hne

/-! ## A pass -/

/-- The active table can take `extra` more responses. -/
def HasRoom (t : TaskTables) (extra : ℕ) : Prop :=
  t.statusLimit ≤ 0 ∨ t.responses.length + extra ≤ t.statusLimit

/-- What a pass has done before it turns to the retired tasks again. -/
structure Passed (now : ℤ) (p : String) (t s : TaskTables) : Prop where
  changes : ∃ t₁, Forgotten p t t₁ ∧ Relation.ReflTransGen (Change now p) t₁ s
  within : 0 < t.statusLimit → (s.statuses.keys.length : ℤ) ≤ t.statusLimit
  young : HasRoom t 0 → ∀ r, t.statuses.get r.taskID = some r → expires t r now = false →
    s.statuses.get r.taskID = some r
  order : ∀ a, t.statuses.get a.taskID = some a → expires t a now = false →
    s.statuses.get a.taskID = none → ∀ b, (s.statuses.get b).isSome → b ≠ p →
    touchedOf t now a.taskID ≤ touchedOf t now b

theorem pruneTaskStatuses_spec (t : TaskTables) (now : ℤ) (p : String) :
    ∃ s, Passed now p t s ∧ t.pruneTaskStatuses now p = s.pruneRetiredTaskStatuses now p := by
  obtain ⟨hforgotten, -⟩ := pruneRetiredTaskStatuses_spec t now p
  simp only [pruneTaskStatuses]
  set t₁ := t.pruneRetiredTaskStatuses now p
  have htouched : ∀ id, touchedOf t₁ now id = touchedOf t now id := fun id => by
    rw [touchedOf, hforgotten.statusMeta, touchedOf]
  have hstart : Scans now p t₁ t₁ [] t₁.responses :=
    ⟨.refl, map_responses t₁, fun r hr => mem_responses.1 hr, by simp, fun r hr _ => hr⟩
  have h := hstart.run
  set t₂ := (t₁.responses.foldl (expireTaskStatus now) (t₁, [])).1
  set new := (t₁.responses.foldl (expireTaskStatus now) (t₁, [])).2
  have hlimit : t₂.statusLimit = t.statusLimit :=
    congrArg Prod.fst ((limits_of_changes h.changes).trans hforgotten.limits)
  have hids : new.map TaskStatusEvictionCandidate.taskID = t₂.statuses.keys := by
    rw [← h.ids, List.map_nil, List.append_nil]
  obtain ⟨hsorted, hlength, hmost⟩ := sortCandidates_spec (nodup_keys t₂) hids p
  have hyoung : ∀ r, t.statuses.get r.taskID = some r → expires t r now = false →
      t₂.statuses.get r.taskID = some r := by
    intro r hr hunexpired
    rw [← hforgotten.statuses] at hr
    rw [← expires_congr hforgotten.limits (htouched _)] at hunexpired
    exact h.young r hr hunexpired
  rw [hlimit]
  split_ifs with hfits
  · refine ⟨t₂, ⟨⟨t₁, hforgotten, h.changes⟩, fun hpos => by omega, fun _ => hyoung,
      fun a ha hunexpired hgone => ?_⟩, rfl⟩
    simp [hyoung a ha hunexpired] at hgone
  · have hmem : ∀ c, c ∈ sortCandidates p new ↔ c ∈ new :=
      fun c => (perm_sortCandidates p new).mem_iff
    obtain ⟨hchanges, hleft, hothers, horder⟩ := evictTaskStatuses_spec now
      (new.length - t.statusLimit).toNat (sortCandidates p new) t₂ hsorted
      (fun c hc => (h.known c ((hmem c).1 hc)).2) (by omega) pairwise_sortCandidates
    refine ⟨_, ⟨⟨t₁, hforgotten, h.changes.trans hchanges⟩, fun hpos => by omega, fun hroom => ?_,
      fun a ha hunexpired hgone b hkept hne => ?_⟩, rfl⟩
    · have hsub : t₂.statuses.keys ⊆ t₁.statuses.keys := fun id hid =>
        mem_keys.2 ((aged_of_changes h.changes).was_active (mem_keys.1 hid))
      have hle := (List.subperm_of_subset (nodup_keys t₂) hsub).length_le
      rw [← map_responses t₁, List.length_map, responses, hforgotten.statuses, ← responses] at hle
      unfold HasRoom at hroom
      omega
    · -- both were candidates
      have hcandidate : ∀ {id : String}, (t₂.statuses.get id).isSome →
          ∃ c ∈ new, c.taskID = id ∧ c.touched = touchedOf t now id := by
        intro id hsome
        have hkey := mem_keys.2 hsome
        rw [← hids] at hkey
        obtain ⟨c, hc, rfl⟩ := List.mem_map.1 hkey
        exact ⟨c, hc, rfl, (h.known c hc).1.trans (htouched _)⟩
      obtain ⟨c, hc, hid, hat⟩ := hcandidate (by rw [hyoung a ha hunexpired]; rfl)
      obtain ⟨d, hd, rfl, hat'⟩ := hcandidate ((aged_of_changes hchanges).was_active hkept)
      rw [← hat, ← hat']
      exact horder c ((hmem c).2 hc) d ((hmem d).2 hd) (hid ▸ hgone) hkept hne

theorem pruneTaskStatuses_aged (t : TaskTables) : Aged t (t.pruneTaskStatuses now p) := by
  obtain ⟨s, hpassed, hout⟩ := pruneTaskStatuses_spec t now p
  obtain ⟨t₁, hforgotten, hchanges⟩ := hpassed.changes
  rw [hout]
  exact (hforgotten.aged.trans (aged_of_changes hchanges)).trans
    (pruneRetiredTaskStatuses_spec s now p).1.aged

/-- A retention pass leaves the protected task alone if it was just touched. -/
theorem pruneTaskStatuses_spares (ht : TouchedAt t p now) :
    Spares p t (t.pruneTaskStatuses now p) := by
  obtain ⟨s, hpassed, hout⟩ := pruneTaskStatuses_spec t now p
  obtain ⟨t₁, hforgotten, hchanges⟩ := hpassed.changes
  rw [hout]
  have hspared := hforgotten.spares
  exact (hspared.trans (spares_of_changes hchanges (hspared.touchedAt ht))).trans
    (pruneRetiredTaskStatuses_spec s now p).1.spares

theorem isExpired_congr (hlimits : limits t' = limits t)
    (hmetadata : t'.statusMeta.get response.taskID = t.statusMeta.get response.taskID) :
    t'.isExpired response now = t.isExpired response now := by
  simp only [limits, Prod.mk.injEq] at hlimits
  simp only [isExpired, hmetadata, hlimits]

/-- A task has not reached the age at which it expires. -/
structure Young (t : TaskTables) (p : String) (now : ℤ) : Prop where
  metadata : (t.statusMeta.get p).isSome
  unexpired : ∀ response, t.statuses.get p = some response → t.isExpired response now = false

/-- A retention pass keeps a young task while the active table is within its limit. -/
theorem pruneTaskStatuses_young {q : String} (hyoung : Young t q now) (hroom : HasRoom t 0) :
    (t.pruneTaskStatuses now p).statuses.get q = t.statuses.get q := by
  obtain ⟨s, hpassed, hout⟩ := pruneTaskStatuses_spec t now p
  rcases hget : t.statuses.get q with _ | response
  · simpa [hget] using ((pruneTaskStatuses_aged t).entry q).active
  rw [hout, (pruneRetiredTaskStatuses_spec s now p).1.statuses]
  obtain rfl := Table.key_of_get hget
  obtain ⟨metadata, hmetadata⟩ := Option.isSome_iff_exists.1 hyoung.metadata
  refine hpassed.young hroom response hget ?_
  rw [← hyoung.unexpired response hget]
  simp [isExpired, expires, touchedOf, hmetadata]

/-! ## Unfinished tasks -/

/-- An unfinished task has been retired: as failed, and with its metadata. -/
def RetiredAs (now : ℤ) (t t' : TaskTables) (r : ServiceTaskResponse) : Prop :=
  ∃ reason sequence, t'.retired.get r.taskID = some (markTaskFailedShape r reason) ∧
    t'.retiredMeta.get r.taskID =
      some { t.metadataOf r.taskID with touchedAt := now, sequence := sequence }

/-- What becomes of an active task: it stays, or it leaves and is retired if it is unfinished. -/
def Traced (now : ℤ) (t t' : TaskTables) (r : ServiceTaskResponse) : Prop :=
  (t'.statuses.get r.taskID = some r ∧ ∀ sequence,
    { t'.metadataOf r.taskID with touchedAt := now, sequence := sequence } =
      { t.metadataOf r.taskID with touchedAt := now, sequence := sequence }) ∨
  (t'.statuses.get r.taskID = none ∧ (isTerminalTaskStatus r.status = true ∨ RetiredAs now t t' r))

theorem Traced.change {t'' : TaskTables} (h : Traced now t t' r) (hstep : Change now p t' t'') :
    Traced now t t'' r := by
  cases hstep with
  | @touch id hnone =>
    refine h.imp_left fun ⟨hget, hmeta⟩ => ⟨hget, fun sequence => ?_⟩
    rw [← hmeta sequence]
    by_cases hid : r.taskID = id <;>
      simp [metadataOf, touchTaskStatus, touchStatusMeta, hid, hnone]
  | @delete response hget hterminal hleaves =>
    by_cases hid : r.taskID = response.taskID
    · refine .inr ⟨by simp [deleteTaskStatus, hid], ?_⟩
      rcases h with ⟨hr, -⟩ | ⟨hr, -⟩
      · rw [hid, hget] at hr
        cases hr
        exact .inl hterminal
      · simp [hid, hget] at hr
    · simpa [Traced, RetiredAs, deleteTaskStatus, metadataOf, hid] using h
  | @retire response reason hget hterminal hleaves =>
    by_cases hid : r.taskID = response.taskID
    · refine .inr ⟨by simp [retireActiveTaskStatus, deleteAccepted, touchRetiredTaskStatus,
        deleteTaskStatus, hid], .inr ?_⟩
      rcases h with ⟨hr, hmeta⟩ | ⟨hr, -⟩
      · rw [hid, hget] at hr
        cases hr
        refine ⟨reason, t'.statusSeq + 1, ?_, ?_⟩
        · simp [retireActiveTaskStatus, deleteAccepted, touchRetiredTaskStatus, deleteTaskStatus,
            markTaskFailedShape]
        · rw [← hmeta]
          simp [retireActiveTaskStatus, deleteAccepted, touchRetiredTaskStatus, deleteTaskStatus,
            touchStatusMeta, metadataOf]
      · simp [hid, hget] at hr
    · simpa [Traced, RetiredAs, retireActiveTaskStatus, deleteAccepted, touchRetiredTaskStatus,
        deleteTaskStatus, touchStatusMeta, markTaskFailedShape, metadataOf, hid] using h

theorem Traced.of_changes (hget : t.statuses.get r.taskID = some r)
    (h : Relation.ReflTransGen (Change now p) t t') : Traced now t t' r := by
  induction h with
  | refl => exact .inl ⟨hget, fun _ => rfl⟩
  | tail _ hstep ih => exact ih.change hstep

/-- Storing a status keeps both tables within a positive limit and the task that was stored.
Whatever was evicted for capacity had been touched no later than what stayed, and an unfinished
task that left is among the retired ones, unless these were too many. -/
theorem status_retention (t : TaskTables) (response : ServiceTaskResponse) (now : ℤ)
    (hpos : 0 < t.statusLimit) :
    let t' := t.storeTaskStatus response now
    t'.statuses.keys.length ≤ t.statusLimit ∧ t'.retired.keys.length ≤ t.statusLimit ∧
      t'.statuses.get response.taskID = some response ∧
      (∀ evicted kept : ServiceTaskResponse, t.statuses.get evicted.taskID = some evicted →
        expires t evicted now = false → t'.statuses.get evicted.taskID = none →
        t'.statuses.get kept.taskID = some kept → kept.taskID ≠ response.taskID →
        touchedOf t now evicted.taskID ≤ touchedOf t now kept.taskID) ∧
      ∀ r : ServiceTaskResponse, t.statuses.get r.taskID = some r →
        isTerminalTaskStatus r.status = false → t'.statuses.get r.taskID = none →
        RetiredAs now t t' r ∨ ∃ s : TaskTables,
          t' = s.pruneRetiredTaskStatuses now response.taskID ∧ RetiredAs now t s r ∧
            t.statusLimit < s.retired.keys.length := by
  intro t'
  set t₀ := ({ t with statuses := t.statuses.insert response }).touchTaskStatus response.taskID now
    with ht₀
  have htouched : TouchedAt t₀ response.taskID now := by
    simp [TouchedAt, ht₀, touchTaskStatus, touchStatusMeta]
  have hstored : t'.statuses.get response.taskID = some response := by
    rw [show t' = t₀.pruneTaskStatuses now response.taskID from rfl,
      (pruneTaskStatuses_spares htouched).status]
    simp [ht₀, touchTaskStatus]
  -- the other tasks are as they were
  have hothers : ∀ id ≠ response.taskID, t₀.statuses.get id = t.statuses.get id ∧
      t₀.statusMeta.get id = t.statusMeta.get id ∧ touchedOf t₀ now id = touchedOf t now id :=
    fun id hne => by simp [ht₀, touchedOf, touchTaskStatus, touchStatusMeta, hne]
  have hleft : ∀ r : ServiceTaskResponse, t'.statuses.get r.taskID = none →
      r.taskID ≠ response.taskID := by
    intro r hgone hid
    simp [hid, hstored] at hgone
  obtain ⟨s, hpassed, hout⟩ := pruneTaskStatuses_spec t₀ now response.taskID
  change t' = _ at hout
  obtain ⟨hforgotten, hretired, hspared⟩ := pruneRetiredTaskStatuses_spec s now response.taskID
  rw [← hout] at hforgotten hretired hspared
  obtain ⟨t₁, hfirst, hchanges⟩ := hpassed.changes
  have hlimit : s.statusLimit = t.statusLimit :=
    congrArg Prod.fst ((limits_of_changes hchanges).trans hfirst.limits)
  rw [hlimit] at hretired hspared
  refine ⟨hforgotten.statuses ▸ hpassed.within hpos, hretired hpos, hstored,
    fun a b ha hunexpired hgone hb hne => ?_, fun r hr hunfinished hgone => ?_⟩
  · obtain ⟨ha₀, -, htouchedA⟩ := hothers a.taskID (hleft a hgone)
    have hlimits : limits t₀ = limits t := rfl
    have hyoung : expires t₀ a now = false := by rwa [expires_congr hlimits htouchedA]
    rw [hforgotten.statuses] at hgone hb
    have horder := hpassed.order a (ha₀.trans ha) hyoung hgone b.taskID (by rw [hb]; rfl) hne
    rwa [htouchedA, (hothers b.taskID hne).2.2] at horder
  · obtain ⟨hr₀, hmeta, -⟩ := hothers r.taskID (hleft r hgone)
    have hmeta₁ : t₁.metadataOf r.taskID = t.metadataOf r.taskID := by
      rw [metadataOf, hfirst.statusMeta, hmeta, metadataOf]
    have htraced := Traced.of_changes (t := t₁) (hfirst.statuses ▸ hr₀.trans hr) hchanges
    rw [hforgotten.statuses] at hgone
    rcases htraced with ⟨hstays, -⟩ | ⟨-, hterminal | hretiredAs⟩
    · simp [hstays] at hgone
    · simp [hunfinished] at hterminal
    rw [RetiredAs, hmeta₁] at hretiredAs
    obtain ⟨reason, sequence, hresponse, hmetadata⟩ := hretiredAs
    rcases hspared r.taskID _ hmetadata rfl with hover | hkept
    · exact .inr ⟨s, hout, ⟨reason, sequence, hresponse, hmetadata⟩, hover⟩
    · rcases hforgotten.entry r.taskID with ⟨-, hsame⟩ | ⟨hnone, -⟩
      · exact .inl ⟨reason, sequence, hkept.trans hresponse, hsame.trans hmetadata⟩
      · simp [hkept, hresponse] at hnone

/-- A running task. -/
def running (id : String) : ServiceTaskResponse :=
  { taskID := id, service := "s", status := .running }

/-- A third task on a node that keeps two: the first one makes room for it. -/
theorem status_retention_full :
    let t := (({ TaskTables.initial with statusLimit := 2 }).storeTaskStatus (running "a")
      1).storeTaskStatus (running "b") 2
    let t' := t.storeTaskStatus (running "c") 3
    t'.statuses.keys = ["b", "c"] ∧ t'.retired.keys = ["a"] ∧
      (t'.statuses.keys.length : ℤ) ≤ t.statusLimit ∧
      (t'.retired.keys.length : ℤ) ≤ t.statusLimit := by
  intro t t'
  obtain ⟨hactive, hretired, -⟩ := status_retention t (running "c") 3 (by decide +kernel)
  exact ⟨by decide +kernel, by decide +kernel, hactive, hretired⟩

end Passes

end Proxyma.Compute
