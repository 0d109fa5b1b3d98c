import Proxyma.Outbox.Commitment

/-!
# Deliveries and flushes

The threads of a node that deliver, one by one.  A delivery finds its entry under the lock of
the key, where no mutation is at work; it sends what it has just found, and deletes what it has
sent.  A flush compares every entry with the catalog, and goes through all that is left from
before the last start (`Swept`) before it delivers.
-/

namespace Proxyma.Outbox

open Keyed Atomic Atomic.Prog

variable {p : String × OutboxEntry} {rest : List (String × OutboxEntry)} {entry : OutboxEntry}

section Threads

variable {cond : Condition} {i : ℕ} {K : State → Prop}
variable {a : OutboxAttempt} {attempts : List OutboxAttempt} {entity id : String}
  {kind : GossipKind} {payload : Payload} {s : State} {e : OutboxEntry} {since : ℕ}

/-! ## Delivering -/

theorem stable_ready (hK : Lasting cond i K) (hheld : ∀ s, K s → Held i e.id s) :
    (sharing cond).Stable i fun s => K s ∧ Ready e s := by
  rintro s s' hs hs' hkeeps ⟨hk, hready⟩
  obtain ⟨purpose, hlock⟩ := hheld s hk
  refine ⟨hK.stable s s' hs hs' hkeeps hk, hkeeps.1.log.subset hready.put, ?_, ?_⟩
  · intro e' ok moment hsent hid
    exact hready.newest e' ok moment (hkeeps.1.quiet hlock _ hsent hid) hid
  · intro e' hdeleted hid
    exact hready.undeleted e' (hkeeps.1.quiet hlock _ hdeleted hid) hid

theorem sendLocked_triple (ha : a.Fits) (hK : Lasting cond i K)
    (hheld : ∀ s, K s → Held i a.entry.id s)
    (hvouched : cond = steady → ∀ s, K s → s.Vouched a.entry) :
    Retains cond i (fun s => K s ∧ Ready a.entry s) (sendLocked a) fun _ s => K s := by
  unfold sendLocked
  refine act_does (fun result s => result = none → ∃ moment, .sent a.entry true moment ∈ s.log)
    (stable_ready hK hheld) hK (fun _ h => h.1) (fun s hs h _ => ⟨?_, fun hsent => ?_⟩)
    fun result => ?_
  · obtain ⟨purpose, hlock⟩ := hheld s h.1
    exact ⟨hs.ledger.send hlock h.2, fun hcond => (hs.announced hcond).send (hvouched hcond s h.1)⟩
  · change s.around.send a.entry = none at hsent
    change ∃ moment, _ ∈ s.log ++ [.sent a.entry (s.around.send a.entry).isNone s.moment]
    exact ⟨s.moment, by simp [hsent]⟩
  have hK₁ : Lasting cond i fun s => K s ∧
      (result = none → ∃ moment, .sent a.entry true moment ∈ s.log) := by
    refine hK.and fun s s' hfollows h hresult => ?_
    obtain ⟨moment, hsent⟩ := h hresult
    exact ⟨moment, hfollows.log.subset hsent⟩
  cases result with
  | some err => exact ret_lasting hK₁ fun s h => h.1
  | none =>
    refine act_silent hK₁ (fun s hs h => ?_) fun result => ?_
    · obtain ⟨purpose, hlock⟩ := hheld s h.1
      refine hs.does ?_ (unmoved_delete ..)
      change Proper i s (s.deleteOutboxEntryIfUnchanged a.storageID a.entry).2
      rw [ha.storage]
      exact hs.ledger.deleteEntry hlock (.inl (h.2 rfl))
    · cases result with
      | error _ | ok _ => exact ret_lasting hK₁ fun s h => h.1

theorem deliverLocked_triple (ha : a.Fits) (hK : Lasting cond i K)
    (hlock : ∀ s, K s → s.locks a.entry.id = some (i, .delivery))
    (hdeliverable : cond = steady → ∀ s, K s → Deliverable a s) :
    Retains cond i K (deliverLocked a) fun _ s => K s := by
  unfold deliverLocked
  refine act_proper (fun result s => result = .ok true →
    Ready a.entry s ∧ (cond = steady → s.Vouched a.entry)) hK
    (fun s hs h _ => ⟨hs.same, fun hmatches => ?_⟩) fun result => ?_
  · change s.outboxEntryMatches a.storageID a.entry = .ok true at hmatches
    have hstored : s.entries.get a.entry.id = some a.entry := by
      unfold State.outboxEntryMatches at hmatches
      cases hcompare : s.around.compare with
      | some err => simp [hcompare] at hmatches
      | none => simpa [hcompare, ha.storage] using hmatches
    refine ⟨hs.ledger.ready hstored, fun hcond => ?_⟩
    -- The lock is a delivery's, so no mutation has its entry there.
    rcases (hs.announced hcond).clean (hlock s h) (by decide) _ hstored with hvouched | hold
    · exact hvouched
    · exact (hdeliverable hcond s h).resolve_left hold.not_gt
  have hret : Retains cond i K (.ret (none : Option GoError)) fun _ s => K s :=
    ret_lasting hK fun _ h => h
  match result with
  | .error err => exact (ret_lasting hK fun _ h => h).given fun _ _ h => h.1
  | .ok false => exact hret.given fun _ _ h => h.1
  | .ok true =>
    have hK₁ : Lasting cond i fun s => K s ∧ (cond = steady → s.Vouched a.entry) :=
      hK.and (lasting_steady fun hregards h => h.mono hregards.timeline)
    exact (sendLocked_triple ha hK₁ (fun s h => ⟨_, hlock s h.1⟩) fun hcond s h => h.2 hcond).weaken
      (fun s _ h => ⟨⟨h.1, (h.2 rfl).2⟩, (h.2 rfl).1⟩) fun _ _ _ h => h.1

theorem lasting_deliverable (a : OutboxAttempt) :
    Lasting cond i fun s => cond = steady → Deliverable a s :=
  lasting_steady fun hregards => hregards.deliverable

theorem act_unlock_plain {K' : State → Prop} {α : Type} {post : α → State → Prop}
    {next : Unit → Prog Action α} {purpose : Purpose} (hpurpose : purpose ≠ .mutation)
    (hK : Lasting cond i K) (hlock : ∀ s, K s → s.locks id = some (i, purpose))
    (hrest : ∀ s, K s → K' { s with locks := Function.update s.locks id none })
    (hnext : Retains cond i K' (next ()) post) :
    Retains cond i K (.act (.unlock id) next) post :=
  act_unlock hK (fun s h => ⟨_, hlock s h⟩)
    (fun _ s hs h => hs.clean (hlock s h) hpurpose) hrest hnext

theorem deliverOutboxAttempt_triple (ha : a.Fits) :
    Retains cond i (fun s => cond = steady → Deliverable a s) (deliverOutboxAttempt a)
      fun _ _ => True := by
  unfold deliverOutboxAttempt
  refine act_lock (lasting_deliverable a) ?_
  have hK := (@lasting_deliverable cond i a).and (lasting_lock a.lockID .delivery)
  refine (deliverLocked_triple ha hK (fun s h => ha.lock ▸ h.2) fun hcond s h => h.1 hcond).bind
    fun err => ?_
  exact act_unlock_plain (by decide) hK (fun s h => h.2) (fun _ _ => trivial)
    (ret_done (K := fun _ => True))

theorem deliverOutboxTracked_triple (ha : a.Fits) (tracked : Bool) :
    Retains cond i (fun s => cond = steady → Deliverable a s) (deliverOutboxTracked a tracked)
      fun _ _ => True := by
  unfold deliverOutboxTracked
  refine (deliverOutboxAttempt_triple ha).bind fun _ => ?_
  rcases tracked with _ | _
  · exact ret_done
  refine act_silent lasting_true (fun s hs _ => hs.does ?_ ?_) fun _ => ret_done
  · exact hs.ledger.elsewhere rfl rfl rfl rfl rfl hs.ledger.spawned
  · exact ⟨rfl, le_rfl, List.prefix_rfl, id, id, rfl, id⟩

/-- In steady runs, attempts that may be handed over. -/
def AllDeliverable (cond : Condition) (attempts : List OutboxAttempt) (s : State) : Prop :=
  cond = steady → ∀ a ∈ attempts, Deliverable a s

theorem lasting_allDeliverable (attempts : List OutboxAttempt) :
    Lasting cond i (AllDeliverable cond attempts) :=
  lasting_steady fun hregards h a ha => hregards.deliverable (h a ha)

theorem deliverOutboxAttemptsAsync_triple (tracked : Bool) (hattempts : ∀ a ∈ attempts, a.Fits) :
    Retains cond i (AllDeliverable cond attempts) (deliverOutboxAttemptsAsync tracked attempts)
      fun _ _ => True := by
  induction attempts with
  | nil => exact ret_done
  | cons a rest ih =>
    refine act_silent (lasting_allDeliverable _) (fun s hs h => ⟨?_, fun hcond => ?_⟩) fun _ => ?_
    · refine hs.ledger.elsewhere rfl rfl rfl rfl rfl fun p hp => ?_
      rcases List.mem_append.1 hp with hold | hnew
      · exact hs.ledger.spawned p hold
      · obtain rfl := List.mem_singleton.1 hnew
        exact hattempts a List.mem_cons_self
    · exact (hs.announced hcond).spawn (h hcond a List.mem_cons_self) tracked
    · exact (ih fun a' ha' => hattempts a' (List.mem_cons_of_mem _ ha')).given
        fun s _ h hcond a' ha' => h hcond a' (List.mem_cons_of_mem _ ha')

theorem lasting_committed (entity : String) (payload : Payload) (since : ℕ) :
    Lasting cond i fun s => cond = steady → s.Committed entity payload since s.moment :=
  lasting_steady fun hregards h => h.mono hregards.timeline (State.moment_mono hregards.timeline)

/-- In steady runs a notification starts with a payload that says what the catalog holds. -/
theorem act_begin {α : Type} {next : ℕ → Prog Action α} {post : α → State → Prop}
    (hnext : ∀ since, Retains cond i
      (fun s => cond = steady → s.Committed
        ((notificationEntityFromPayload kind payload).getD entity) payload since s.moment)
      (next since) post) :
    Retains cond i (fun _ => True) (.act (.begin .notification kind entity payload) next) post := by
  refine act_proper (fun since s => cond = steady → s.Committed
    ((notificationEntityFromPayload kind payload).getD entity) payload since s.moment)
    lasting_true (fun s hs _ hmay => ⟨hs.same, ?_⟩) fun since => (hnext since).given fun _ _ h => h.2
  rintro rfl
  exact State.committed_now le_rfl (hmay.2 rfl)

theorem notifyWithOutbox_triple (peerID : String) (kind : GossipKind) (dedupe : String)
    (payload : Payload) :
    Retains cond i (fun _ => True) (notifyWithOutbox peerID kind dedupe payload)
      fun _ _ => True := by
  unfold notifyWithOutbox
  refine act_begin fun since => ?_
  refine (stage_vouched (lasting_committed _ _ _) rfl (fun hcond _ h => h hcond) ?_).bind
    fun result => ?_
  · rintro (h | h) <;> cases h
  match result with
  | .error err => exact ret_done
  | .ok (attempt, false) => exact ret_done
  | .ok (attempt, true) =>
    exact (Sharing.Triple.of_pure deliverOutboxAttempt_triple).given
      fun s _ h => h.2.1 attempt true rfl

theorem enqueueOutbox_triple (peerID : String) (kind : GossipKind) (dedupe : String)
    (payload : Payload) :
    Retains cond i (fun _ => True) (enqueueOutbox peerID kind dedupe payload) fun _ _ => True := by
  unfold enqueueOutbox
  refine act_begin fun since => ?_
  refine (stage_vouched (lasting_committed _ _ _) rfl (fun hcond _ h => h hcond) ?_).bind
    fun _ => ret_done
  rintro (h | h) <;> cases h

/-! ## Flushing -/

/-- An entry as it was found in the store. -/
def Listed : String × OutboxEntry → Prop
  | (id, e) => e.id = id ∧ e.Canonical

/-- What is left from before the last start is vouched for, or still to be looked at. -/
def Swept (todo : List (String × OutboxEntry)) (s : State) : Prop :=
  ∀ id e, s.entries.get id = some e → e.generation ≤ s.boot → s.Vouched e ∨ (id, e) ∈ todo

theorem Regards.swept {s' : State} {todo : List (String × OutboxEntry)} (h : Regards i s s')
    (hs : Swept todo s) : Swept todo s' := by
  intro id e hget hold
  rw [h.boot] at hold
  rcases h.entries hget with hget | ⟨hrecent, -⟩
  · exact (hs id e hget hold).imp_left (·.mono h.timeline)
  · exact absurd hold hrecent.not_ge

theorem Swept.tail (h : Swept (p :: rest) s)
    (hp : s.entries.get p.1 = some p.2 → p.2.generation ≤ s.boot → s.Vouched p.2) :
    Swept rest s := by
  intro id e hget hold
  rcases h id e hget hold with hvouched | hmem
  · exact .inl hvouched
  · rcases List.mem_cons.1 hmem with rfl | hmem
    · exact .inl (hp hget hold)
    · exact .inr hmem

/-- What is known of an entry that was listed. -/
structure Noted (cond : Condition) (p : String × OutboxEntry) (s : State) : Prop where
  put : .put p.2 ∈ s.log
  since : cond = steady → p.2.since ≤ s.moment
  named : cond = steady → p.2.entity = "" → s.Vouched p.2

theorem lasting_noted (p : String × OutboxEntry) : Lasting cond i (Noted cond p) :=
  fun _ _ hfollows h => ⟨hfollows.log.subset h.put,
    fun hcond => (h.since hcond).trans (State.moment_mono (hfollows.regards hcond).timeline),
    fun hcond hempty => (h.named hcond hempty).mono (hfollows.regards hcond).timeline⟩

theorem noted_of_listOutboxRaw (hs : Kept cond s) {rawEntries}
    (h : s.listOutboxRaw = .ok rawEntries) :
    (∀ p ∈ rawEntries, (Listed p ∧ s.entries.get p.1 = some p.2) ∧ Noted cond p s) ∧
      Swept rawEntries s := by
  unfold State.listOutboxRaw at h
  rcases hlist : s.around.list with _ | err
  swap
  · simp [hlist] at h
  simp only [hlist, Except.ok.injEq] at h
  have hmem : ∀ id e, (id, e) ∈ rawEntries ↔ s.entries.get id = some e := by
    intro id e
    rw [← h, (s.around.order_perm _).mem_iff, Bucket.mem_entries]
  refine ⟨?_, fun id e hget _ => .inr ((hmem id e).2 hget)⟩
  rintro ⟨id, e⟩ hp
  have hget := (hmem id e).1 hp
  obtain ⟨hid, hput, -⟩ := hs.ledger.stored hget
  exact ⟨⟨⟨hid, hs.ledger.record.canonical hput⟩, hget⟩, hput,
    fun hcond => (hs.announced hcond).since hget, fun hcond => (hs.announced hcond).named hget⟩

theorem outboxEntity_of_canonical (he : e.Canonical) (h : outboxEntity e = some entity) :
    entity = e.entity := by
  unfold outboxEntity at h
  split_ifs at h with hempty
  · exact (Option.some.inj h).symm
  · simp [he.named (not_not.1 hempty)] at h

theorem flushAttempt_fits (hp : Listed p) : (flushAttempt p).Fits := by
  obtain ⟨id, e⟩ := p
  obtain ⟨rfl, hcanonical⟩ := hp
  refine ⟨rfl, ?_⟩
  unfold flushAttempt
  dsimp only
  split_ifs
  · exact hcanonical.key.symm
  · rfl

/-- The reading of a catalog that has nothing to say, after an entry was put. -/
theorem idle_of_current (h : (s.currentNotificationPayload kind entity).1 = .ok (none, since))
    (hput : .put e ∈ s.log) (hkind : e.kind = kind) (hentity : e.entity = entity) :
    Idle (s.currentNotificationPayload kind entity).2.log e := by
  unfold State.currentNotificationPayload at h ⊢
  cases hcurrent : s.around.current with
  | some err => simp [hcurrent] at h
  | none =>
    cases hpayload : s.catalog.current entity kind with
    | some payload => simp [hcurrent, hpayload] at h
    | none =>
      refine ⟨s.log, [], ?_, hput⟩
      rw [hkind, hentity]
      rfl

theorem deleted_of_ok {deleted : Bool} (h : (s.deleteOutboxEntryIfUnchanged id e).1 = .ok deleted) :
    (s.deleteOutboxEntryIfUnchanged id e).2.entries.get id ≠ some e := by
  unfold State.deleteOutboxEntryIfUnchanged at h ⊢
  cases hdelete : s.around.delete with
  | some err => simp [hdelete] at h
  | none =>
    split_ifs with hget
    · simp
    · exact hget

theorem committed_of_current
    (h : (s.currentNotificationPayload kind entity).1 = .ok (some payload, since)) :
    (notificationEntityFromPayload kind payload).getD entity = entity ∧ since = s.moment ∧
      payload.Reflects entity (s.currentNotificationPayload kind entity).2.catalog ∧
      (s.currentNotificationPayload kind entity).2.moment = s.moment := by
  unfold State.currentNotificationPayload at h ⊢
  cases hcurrent : s.around.current with
  | some err => simp [hcurrent] at h
  | none =>
    rcases hpayload : s.catalog.current entity kind with _ | payload'
    · simp [hcurrent, hpayload] at h
    simp only [hcurrent, hpayload, Except.ok.injEq, Prod.mk.injEq, Option.some.injEq] at h
    obtain ⟨rfl, rfl⟩ := h
    exact ⟨Catalog.current_entity hpayload, rfl, Catalog.current_reflects hpayload, rfl⟩

/-- A flush at work: what it has listed, and what of it is still to be looked at. -/
def Flushing (cond : Condition) (listed todo : List (String × OutboxEntry)) (s : State) : Prop :=
  (∀ p ∈ listed, Noted cond p s) ∧ (cond = steady → Swept todo s)

theorem lasting_flushing (listed todo : List (String × OutboxEntry)) :
    Lasting cond i (Flushing cond listed todo) :=
  (Lasting.forall fun p => (lasting_noted p).imp).and (lasting_steady fun hregards => hregards.swept)

/-- A flush compares one entry with the catalog, under the lock of its key. -/
def Comparing (cond : Condition) (i : ℕ) (entry : OutboxEntry)
    (rest todo : List (String × OutboxEntry)) (s : State) : Prop :=
  Flushing cond ((entry.id, entry) :: rest) todo s ∧ s.locks entry.id = some (i, .reconciliation)

theorem lasting_comparing (entry : OutboxEntry) (rest todo : List (String × OutboxEntry)) :
    Lasting cond i (Comparing cond i entry rest todo) :=
  (lasting_flushing _ todo).and (lasting_lock _ _)

theorem Comparing.tail (h : Comparing cond i entry rest ((entry.id, entry) :: rest) s)
    (hentry : cond = steady → s.entries.get entry.id = some entry → entry.generation ≤ s.boot →
      s.Vouched entry) :
    Comparing cond i entry rest rest s :=
  ⟨⟨h.1.1, fun hcond => (h.1.2 hcond).tail (hentry hcond)⟩, h.2⟩

/-- What was read to be compared with an entry: a payload that says what the catalog holds, or
that there is nothing to say. -/
structure Current (cond : Condition) (entry : OutboxEntry)
    (result : Except GoError (Option Payload × ℕ)) (s : State) : Prop where
  idle : ∀ since, result = .ok (none, since) → Idle s.log entry
  name : ∀ payload since, result = .ok (some payload, since) →
    (notificationEntityFromPayload entry.kind payload).getD entry.entity = entry.entity
  committed : cond = steady → ∀ payload since, result = .ok (some payload, since) →
    s.Committed entry.entity payload since s.moment ∧
      s.Committed entry.entity payload entry.since s.moment

theorem lasting_current (entry : OutboxEntry) (result : Except GoError (Option Payload × ℕ)) :
    Lasting cond i (Current cond entry result) := by
  intro s s' hfollows h
  refine ⟨fun since hresult => (h.idle since hresult).mono hfollows.log, h.name,
    fun hcond payload since hresult => ?_⟩
  have htimeline := (hfollows.regards hcond).timeline
  have hmoment := State.moment_mono htimeline
  obtain ⟨hread, hentry⟩ := h.committed hcond payload since hresult
  exact ⟨hread.mono htimeline hmoment, hentry.mono htimeline hmoment⟩

theorem current_of_reading (hnoted : Noted cond (id, entry) s) :
    Current cond entry (s.currentNotificationPayload entry.kind entry.entity).1
      (s.currentNotificationPayload entry.kind entry.entity).2 := by
  refine ⟨fun since hresult => idle_of_current hresult hnoted.put rfl rfl,
    fun payload since hresult => (committed_of_current hresult).1,
    fun hcond payload since hresult => ?_⟩
  obtain ⟨-, rfl, hreflects, hmoment⟩ := committed_of_current hresult
  have hsince := hnoted.since hcond
  rw [← hmoment] at hsince
  exact ⟨State.committed_now hmoment.ge hreflects, State.committed_now hsince hreflects⟩

theorem reconcileActiveOutbox_triple {rawEntries : List (String × OutboxEntry)}
    (hlisted : ∀ p ∈ rawEntries, Listed p) :
    Retains cond i (Flushing cond rawEntries rawEntries) (reconcileActiveOutbox rawEntries)
      fun err s => cond = steady → err = none → Swept [] s := by
  induction rawEntries with
  | nil => exact ret_lasting (lasting_flushing _ _) fun s h hcond _ => h.2 hcond
  | cons p rest ih =>
    obtain ⟨id, entry⟩ := p
    obtain ⟨rfl, hcanonical⟩ : Listed (id, entry) := hlisted _ List.mem_cons_self
    have hrest : Retains cond i (Flushing cond ((entry.id, entry) :: rest) rest)
        (reconcileActiveOutbox rest) fun err s => cond = steady → err = none → Swept [] s :=
      (ih fun p hp => hlisted p (List.mem_cons_of_mem _ hp)).given
        fun s _ h => ⟨fun p hp => h.1 p (List.mem_cons_of_mem _ hp), h.2⟩
    unfold reconcileActiveOutbox
    cases hentity : outboxEntity entry with
    | none =>
      refine hrest.given fun s _ h => ⟨h.1, fun hcond => (h.2 hcond).tail fun _ _ => ?_⟩
      refine (h.1 _ List.mem_cons_self).named hcond ?_
      by_contra hne
      simp [outboxEntity, hne] at hentity
    | some entity =>
      obtain rfl := outboxEntity_of_canonical hcanonical hentity
      dsimp only
      rw [← hcanonical.key]
      -- The lock is let go with the entry dealt with, or the flush gives up.
      have hgo : Retains cond i (Comparing cond i entry rest rest)
          (.act (.unlock entry.id) fun _ => reconcileActiveOutbox rest)
          fun err s => cond = steady → err = none → Swept [] s :=
        act_unlock_plain (by decide) (lasting_comparing entry rest rest) (fun s h => h.2)
          (fun s h => ⟨fun p hp => ⟨(h.1.1 p hp).put, (h.1.1 p hp).since, (h.1.1 p hp).named⟩, h.1.2⟩)
          hrest
      have hfail : ∀ err : GoError, Retains cond i (fun _ => True) (.ret (some err))
          fun err s => cond = steady → err = none → Swept [] s :=
        fun err => ret_lasting lasting_true fun _ _ _ herr => by cases herr
      have hstop : ∀ err : GoError, Retains cond i
          (Comparing cond i entry rest ((entry.id, entry) :: rest))
          (.act (.unlock entry.id) fun _ => .ret (some err))
          fun err s => cond = steady → err = none → Swept [] s :=
        fun err => act_unlock_plain (by decide) (lasting_comparing entry rest _)
          (fun s h => h.2) (fun _ _ => trivial) (hfail err)
      refine act_lock (lasting_flushing _ _) ?_
      change Retains cond i (Comparing cond i entry rest ((entry.id, entry) :: rest)) _ _
      refine act_proper (Current cond entry) (lasting_comparing entry rest _)
        (fun s hs h _ => ⟨hs.does (hs.ledger.idle _ _) (unmoved_current ..), ?_⟩) fun result => ?_
      · exact current_of_reading (h.1.1 _ List.mem_cons_self)
      have hK := (@lasting_comparing cond i entry rest ((entry.id, entry) :: rest)).and
        (lasting_current entry result)
      match result with
      | .error err => exact (hstop err).given fun _ _ h => h.1
      | .ok (none, since) =>
        refine act_proper (fun result s => ∀ deleted, result = .ok deleted →
          s.entries.get entry.id ≠ some entry) hK (fun s hs h _ =>
            ⟨hs.does ?_ (unmoved_delete ..), fun deleted => deleted_of_ok⟩) fun result => ?_
        · exact hs.ledger.deleteEntry h.1.2 (.inr (h.2.idle since rfl))
        cases result with
        | error err => exact (hstop err).given fun _ _ h => h.1.1
        | ok deleted =>
          exact hgo.given fun _ _ h => h.1.1.tail fun _ hget => absurd hget (h.2 deleted rfl)
      | .ok (some payload, since) =>
        change Retains cond i _ (if entry.payload = payload then _ else _) _
        split_ifs with hsame
        · refine hgo.given fun s _ h => h.1.tail fun hcond _ _ => ?_
          subst hsame
          exact (h.2.committed hcond _ since rfl).2
        · refine Sharing.Triple.given (Sharing.Triple.of_pure fun hname => ?_)
            fun s _ h => ⟨h.2.name payload since rfl, h⟩
          refine (stage_vouched hK hname (fun hcond s h => (h.2.committed hcond payload since rfl).1)
            fun _ s h => ⟨.reconciliation, hcanonical.key ▸ h.1.2⟩).bind fun result => ?_
          rw [← hcanonical.key]
          rcases result with err | staged
          · exact (hstop err).given fun _ _ h => h.1.1
          refine hgo.given fun s _ h => h.1.1.tail fun hcond hget hold => ?_
          exact absurd hold (h.2.2.1 hcond (.inl rfl) staged rfl entry hget).1.not_ge

theorem act_list {G : List (String × OutboxEntry) → State → Prop} {post : Unit → State → Prop}
    {next : Except GoError (List (String × OutboxEntry)) → Prog Action Unit}
    (hK : Lasting cond i K)
    (hG : ∀ s rawEntries, Kept cond s → K s → s.listOutboxRaw = .ok rawEntries → G rawEntries s)
    (herror : ∀ err, Retains cond i (fun _ => True) (next (.error err)) post)
    (hok : ∀ rawEntries, (∀ p ∈ rawEntries, Listed p) →
      Retains cond i (G rawEntries) (next (.ok rawEntries)) post) :
    Retains cond i K (.act .listOutboxRaw next) post := by
  refine act_proper (fun result s => ∀ rawEntries, result = .ok rawEntries →
    (∀ p ∈ rawEntries, Listed p) ∧ G rawEntries s) hK (fun s hs h _ => ⟨hs.same, ?_⟩) fun result => ?_
  · intro rawEntries hlist
    exact ⟨fun p hp => ((noted_of_listOutboxRaw hs hlist).1 p hp).1.1, hG s rawEntries hs h hlist⟩
  cases result with
  | error err => exact (herror err).given fun _ _ _ => trivial
  | ok rawEntries =>
    exact (Sharing.Triple.of_pure (hok rawEntries)).given fun s _ h => h.2 rawEntries rfl

theorem flushLocked_triple : Retains cond i (fun _ => True) flushLocked fun _ _ => True := by
  unfold flushLocked
  refine act_list (G := fun rawEntries => Flushing cond rawEntries rawEntries) lasting_true
    (fun s rawEntries hs _ hlist => ⟨fun p hp => ((noted_of_listOutboxRaw hs hlist).1 p hp).2,
      fun _ => (noted_of_listOutboxRaw hs hlist).2⟩) (fun _ => ret_done) fun rawEntries hlisted => ?_
  refine (reconcileActiveOutbox_triple hlisted).bind fun err => ?_
  rcases err with _ | err
  swap
  · exact ret_done
  refine Sharing.Triple.given ?_ fun s _ h hcond => h hcond rfl
  refine act_list (G := fun rawEntries => AllDeliverable cond (rawEntries.map flushAttempt))
    (lasting_steady fun hregards => hregards.swept) (fun s rawEntries hs hswept hlist hcond a ha => ?_)
    (fun _ => ret_done) fun rawEntries hlisted => ?_
  · obtain ⟨⟨id, e⟩, hp, rfl⟩ := List.mem_map.1 ha
    have hget : s.entries.get id = some e := ((noted_of_listOutboxRaw hs hlist).1 _ hp).1.2
    rcases lt_or_ge s.boot e.generation with hrecent | hold
    · exact .inl hrecent
    · exact .inr ((hswept hcond id e hget hold).resolve_right List.not_mem_nil)
  · have hfits : ∀ a ∈ rawEntries.map flushAttempt, a.Fits := by
      intro a ha
      obtain ⟨p, hp, rfl⟩ := List.mem_map.1 ha
      exact flushAttempt_fits (hlisted p hp)
    refine (deliverOutboxAttemptsAsync_triple true hfits).bind fun _ => ?_
    exact act_silent lasting_true (fun s hs _ => hs.same) fun _ => ret_done

theorem flushOutbox_triple : Retains cond i (fun _ => True) flushOutbox fun _ _ => True := by
  have hflush : ∀ s flushing, Kept cond s → Does cond i s { s with flushing } :=
    fun s flushing hs => hs.does (hs.ledger.elsewhere rfl rfl rfl rfl rfl hs.ledger.spawned)
      ⟨rfl, le_rfl, List.prefix_rfl, id, id, rfl, id⟩
  unfold flushOutbox
  refine act_silent lasting_true (fun s hs _ => hflush s true hs) fun free => ?_
  rcases free with _ | _
  · exact ret_done
  refine flushLocked_triple.bind fun _ => ?_
  exact act_silent lasting_true (fun s hs _ => hflush s false hs) fun _ => ret_done

end Threads

end Proxyma.Outbox
