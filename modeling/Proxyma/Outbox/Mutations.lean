import Proxyma.Outbox.Delivery

/-!
# Mutations

A mutation stages one entry for each peer, under the locks of their keys, changes the catalog,
and lets the locks go.  It knows which entries under its locks are its own (`Uncommitted`); when
it lets the locks go, these are committed, or taken back.

With the mutations all threads of a node are known to keep the discipline of `sharing`, and a
run of the node keeps it step by step.
-/

namespace Proxyma.Outbox

open Keyed Atomic Atomic.Prog

variable {result : Except GoError Bool} {c : Crew Action State}

section Threads

variable {cond : Condition} {i : ℕ} {K : State → Prop}
variable {a : OutboxAttempt} {attempts : List OutboxAttempt} {entity id : String}
  {kind : GossipKind} {payload : Payload} {s s' : State} {e : OutboxEntry} {since : ℕ}
  {locked : List String} {m : StagedOutboxMutation}

/-! ## What is staged -/

/-- Under the keys that a mutation has locked are no other uncommitted entries than those of
its attempts and those from before the last start. -/
structure Uncommitted (locked : List String) (attempts : List OutboxAttempt) (s : State) :
    Prop where
  entries : ∀ id ∈ locked, ∀ e, s.entries.get id = some e →
    s.Vouched e ∨ e.generation ≤ s.boot ∨ ∃ a ∈ attempts, a.entry = e
  recent : ∀ a ∈ attempts, s.boot < a.entry.generation

theorem Regards.uncommitted (h : Regards i s s')
    (hlocks : ∀ id ∈ locked, s.locks id = some (i, .mutation)) (hs : Uncommitted locked attempts s) :
    Uncommitted locked attempts s' := by
  refine ⟨fun id hid e hget => ?_, fun a ha => ?_⟩
  · rw [h.boot]
    rcases h.entries hget with hget | ⟨-, hvouched⟩
    · exact (hs.entries id hid e hget).imp_left (·.mono h.timeline)
    · exact .inl (hvouched ⟨_, hlocks id hid⟩)
  · rw [h.boot]
    exact hs.recent a ha

/-- An attempt is off the list when its entry is gone or vouched for. -/
theorem Uncommitted.tail {rest : List OutboxAttempt} (hs : Ledger s)
    (h : Uncommitted locked (a :: rest) s)
    (ha : s.entries.get a.entry.id = some a.entry → s.Vouched a.entry) :
    Uncommitted locked rest s := by
  refine ⟨fun id hid e hget => ?_, fun a' ha' => h.recent a' (List.mem_cons_of_mem _ ha')⟩
  rcases h.entries id hid e hget with hvouched | hold | ⟨a', ha', rfl⟩
  · exact .inl hvouched
  · exact .inr (.inl hold)
  · rcases List.mem_cons.1 ha' with rfl | ha'
    · obtain rfl : a'.entry.id = id := (hs.stored hget).1
      exact .inl (ha hget)
    · exact .inr (.inr ⟨a', ha', rfl⟩)

/-- What a mutation has made: attempts for its entity, under keys that it has locked. -/
structure StagedOutboxMutation.Made (m : StagedOutboxMutation) (payload : Payload) (since : ℕ) :
    Prop where
  nodup : m.locked.Nodup
  made : ∀ a ∈ m.attempts, ∃ peerID generation,
    a = stagedAttempt since peerID m.kind m.entity payload generation
  locked : ∀ a ∈ m.attempts, a.entry.id ∈ m.locked

theorem StagedOutboxMutation.Made.fits (hm : m.Made payload since) :
    ∀ a ∈ m.attempts, a.Fits := by
  intro a ha
  obtain ⟨peerID, generation, rfl⟩ := hm.made a ha
  exact ⟨rfl, rfl⟩

/-- What a mutation knows while it stages. -/
structure Staging (cond : Condition) (i : ℕ) (locked : List String) (attempts : List OutboxAttempt)
    (since : ℕ) (s : State) : Prop where
  locks : ∀ id ∈ locked, s.locks id = some (i, .mutation)
  put : ∀ a ∈ attempts, .put a.entry ∈ s.log
  since : cond = steady → since ≤ s.moment
  uncommitted : cond = steady → Uncommitted locked attempts s

theorem lasting_staging (locked : List String) (attempts : List OutboxAttempt) (since : ℕ) :
    Lasting cond i (Staging cond i locked attempts since) :=
  fun _ _ hfollows h => ⟨fun id hid => hfollows.locks (h.locks id hid),
    fun a ha => hfollows.log.subset (h.put a ha),
    fun hcond => (h.since hcond).trans (State.moment_mono (hfollows.regards hcond).timeline),
    fun hcond => (hfollows.regards hcond).uncommitted h.locks (h.uncommitted hcond)⟩

theorem put_cases {generation : ℕ}
    (h : s.putOutboxRawIfCurrentGeneration id generation e = (result, s')) :
    (result ≠ .ok true ∧ ∃ event, s' = s.record event) ∨
      result = .ok true ∧ s' = { s with
        entries := s.entries.put id e
        reservations := s.reservations.erase id
        log := s.log ++ [.put e] } := by
  unfold State.putOutboxRawIfCurrentGeneration at h
  cases hput : s.around.put with
  | some err =>
    obtain ⟨rfl, rfl⟩ : _ = result ∧ _ = s' := by simpa [hput] using h
    exact .inl ⟨by simp, _, rfl⟩
  | none =>
    simp only [hput] at h
    split_ifs at h
    · exact .inr ⟨(congrArg Prod.fst h).symm, (congrArg Prod.snd h).symm⟩
    · cases h
      exact .inl ⟨by simp, _, rfl⟩

/-- The attempts of a mutation after one more put. -/
def withAttempt (attempts : List OutboxAttempt) (a : OutboxAttempt) :
    Except GoError Bool → List OutboxAttempt
  | .ok true => attempts ++ [a]
  | _ => attempts

theorem withAttempt_of_ne (h : result ≠ .ok true) : withAttempt attempts a result = attempts := by
  rcases result with err | _ | _
  · rfl
  · rfl
  · exact absurd rfl h

theorem forall_append {P : OutboxAttempt → Prop} (hold : ∀ a ∈ attempts, P a) (hnew : P a) :
    ∀ a' ∈ attempts ++ [a], P a' := by
  intro a' ha'
  rcases List.mem_append.1 ha' with ha' | ha'
  · exact hold a' ha'
  · rwa [List.mem_singleton.1 ha']

theorem Staging.after_put (h : Staging cond i locked attempts since s)
    (hrecent : cond = steady → s.boot < a.entry.generation)
    (hput : s.putOutboxRawIfCurrentGeneration a.entry.id a.entry.generation a.entry = (result, s')) :
    Staging cond i locked (withAttempt attempts a result) since s' := by
  obtain ⟨hne, event, rfl⟩ | ⟨rfl, rfl⟩ := put_cases hput
  · rw [withAttempt_of_ne hne]
    exact ⟨h.locks, fun a ha => List.mem_append_left _ (h.put a ha), h.since,
      fun hcond => ⟨(h.uncommitted hcond).entries, (h.uncommitted hcond).recent⟩⟩
  · refine ⟨h.locks, forall_append (fun a ha => List.mem_append_left _ (h.put a ha)) (by simp),
      h.since, fun hcond => ⟨fun id hid e hget => ?_,
      forall_append (h.uncommitted hcond).recent (hrecent hcond)⟩⟩
    dsimp only at hget
    rw [Bucket.get_put] at hget
    split_ifs at hget with hkey
    · exact .inr (.inr ⟨a, List.mem_append_right _ (List.mem_singleton_self _),
        Option.some.inj hget⟩)
    · refine ((h.uncommitted hcond).entries id hid e hget).imp_right fun h => h.imp_right ?_
      rintro ⟨a', ha', rfl⟩
      exact ⟨a', List.mem_append_left _ ha', rfl⟩

theorem stage_mutation {peerID : String}
    (hname : (notificationEntityFromPayload kind payload).getD entity = entity)
    (hentity : cond = steady → entity ≠ "") (hlocked : outboxKey peerID kind entity ∈ locked) :
    Retains cond i (Staging cond i locked attempts since)
      (stageOutbox .mutation since peerID kind entity payload)
      fun result s => (∃ err, result = .error err ∧ Staging cond i locked attempts since s) ∨
        ∃ generation applied,
          result = .ok (stagedAttempt since peerID kind entity payload generation, applied) ∧
          Staging cond i locked (withAttempt attempts
            (stagedAttempt since peerID kind entity payload generation) (.ok applied)) since s := by
  refine (stageOutbox_triple (Q := fun a result => Staging cond i locked
    (withAttempt attempts a result) since) (lasting_staging _ _ _)
    (fun _ _ => lasting_staging _ _ _) hname
    (fun hcond s h _ => .inr ⟨h.since hcond, hentity hcond, h.locks _ hlocked⟩) ?_).weaken
    (fun _ _ h => h) ?_
  · exact fun generation s s' result h hrecent _ hput _ _ => h.after_put hrecent hput
  · rintro result s - (⟨h, ⟨err, rfl⟩, -⟩ | ⟨generation, err | applied, h, rfl⟩)
    · exact .inl ⟨err, rfl, h⟩
    · exact .inl ⟨err, rfl, h⟩
    · exact .inr ⟨generation, applied, rfl, h⟩

/-! ## Rollbacks -/

/-- What a mutation knows while it takes its attempts back: what it says instead is
committed. -/
structure Restoring (cond : Condition) (i : ℕ) (locked : List String) (entity : String)
    (payload : Option Payload) (since : ℕ) (attempts reconciled : List OutboxAttempt) (s : State) :
    Prop where
  locks : ∀ id ∈ locked, s.locks id = some (i, .mutation)
  idle : payload = none → ∀ a ∈ attempts, Idle s.log a.entry
  uncommitted : cond = steady → Uncommitted locked attempts s
  committed : cond = steady → ∀ current, payload = some current →
    s.Committed entity current since s.moment
  deliverable : AllDeliverable cond reconciled s

/-- What it knows when it is done. -/
structure Restored (cond : Condition) (i : ℕ) (locked : List String)
    (result : Except GoError (List OutboxAttempt)) (s : State) : Prop where
  locks : ∀ id ∈ locked, s.locks id = some (i, .mutation)
  uncommitted : cond = steady → Uncommitted locked [] s
  deliverable : ∀ l, result = .ok l → AllDeliverable cond l s
  done : cond = steady → ∃ l, result = .ok l

theorem lasting_restoring (locked : List String) (entity : String) (payload : Option Payload)
    (since : ℕ) (attempts reconciled : List OutboxAttempt) :
    Lasting cond i (Restoring cond i locked entity payload since attempts reconciled) :=
  fun s s' hfollows h => ⟨fun id hid => hfollows.locks (h.locks id hid),
    fun hnone a ha => (h.idle hnone a ha).mono hfollows.log,
    fun hcond => (hfollows.regards hcond).uncommitted h.locks (h.uncommitted hcond),
    fun hcond current hcurrent => (h.committed hcond current hcurrent).mono
      (hfollows.regards hcond).timeline (State.moment_mono (hfollows.regards hcond).timeline),
    lasting_allDeliverable reconciled s s' hfollows h.deliverable⟩

theorem lasting_restored (locked : List String) (result : Except GoError (List OutboxAttempt)) :
    Lasting cond i (Restored cond i locked result) :=
  fun s s' hfollows h => ⟨fun id hid => hfollows.locks (h.locks id hid),
    fun hcond => (hfollows.regards hcond).uncommitted h.locks (h.uncommitted hcond),
    fun l hl => lasting_allDeliverable l s s' hfollows (h.deliverable l hl), h.done⟩

/-- The attempts of a rollback are taken back or replaced, one by one. -/
theorem reconcileAttempts_triple {payload : Option Payload} (reconciled : List OutboxAttempt)
    (hname : ∀ current, payload = some current →
      (notificationEntityFromPayload kind current).getD entity = entity)
    (hattempts : ∀ a ∈ attempts, a.Fits ∧ a.entry.id = outboxKey a.entry.peerID kind entity ∧
      a.entry.id ∈ locked) (hreconciled : ∀ a ∈ reconciled, a.Fits) :
    Retains cond i (Restoring cond i locked entity payload since attempts reconciled)
      (reconcileAttempts kind entity payload since attempts reconciled)
      fun result s => (∀ l, result = .ok l → ∀ a ∈ l, a.Fits) ∧ Restored cond i locked result s := by
  have hK := fun attempts reconciled =>
    @lasting_restoring cond i locked entity payload since attempts reconciled
  induction attempts generalizing reconciled with
  | nil =>
    refine ret_lasting (hK [] reconciled) fun s h => ⟨fun l hl => ?_, h.locks, h.uncommitted,
      fun l hl => ?_, fun _ => ⟨reconciled, rfl⟩⟩
    · obtain rfl := Except.ok.inj hl
      exact hreconciled
    · obtain rfl := Except.ok.inj hl
      exact h.deliverable
  | cons a rest ih =>
    obtain ⟨hfits, hkey, hlocked⟩ := hattempts a List.mem_cons_self
    have hrest := fun a' (ha' : a' ∈ rest) => hattempts a' (List.mem_cons_of_mem _ ha')
    -- Outside steady runs the rollback may give up.
    have hfail : ∀ {reconciled : List OutboxAttempt} (err : GoError), cond ≠ steady →
        Retains cond i (Restoring cond i locked entity payload since (a :: rest) reconciled)
          (.ret (.error err)) fun result s => (∀ l, result = .ok l → ∀ a ∈ l, a.Fits) ∧
            Restored cond i locked result s := fun err hcond =>
      ret_lasting (hK _ _) fun s h => ⟨by simp, h.locks, fun heq => absurd heq hcond,
        by simp, fun heq => absurd heq hcond⟩
    unfold reconcileAttempts
    cases payload with
    | none =>
      refine act_proper (fun result s => (cond = steady → ∃ deleted, result = .ok deleted) ∧
        ∀ deleted, result = .ok deleted → s.entries.get a.entry.id ≠ some a.entry) (hK _ _)
        (fun s hs h hmay => ?_) fun result => ?_
      · change Does cond i s (s.deleteOutboxEntryIfUnchanged a.storageID a.entry).2 ∧
          (_ → ∃ deleted, (s.deleteOutboxEntryIfUnchanged a.storageID a.entry).1 = .ok deleted) ∧
          ∀ deleted, (s.deleteOutboxEntryIfUnchanged a.storageID a.entry).1 = .ok deleted →
            (s.deleteOutboxEntryIfUnchanged a.storageID a.entry).2.entries.get _ ≠ _
        rw [hfits.storage]
        refine ⟨hs.does (hs.ledger.deleteEntry (h.locks _ hlocked) (.inr ?_)) (unmoved_delete ..), ?_,
          fun _ => deleted_of_ok⟩
        · exact h.idle rfl a List.mem_cons_self
        rintro rfl
        have hdelete : s.around.delete = none := hmay.2 rfl
        unfold State.deleteOutboxEntryIfUnchanged
        simp only [hdelete]
        split_ifs
        · exact ⟨true, rfl⟩
        · exact ⟨false, rfl⟩
      cases result with
      | error err =>
        refine (Sharing.Triple.of_pure (hfail err)).given fun s _ h => ⟨fun hcond => ?_, h.1⟩
        obtain ⟨deleted, hdeleted⟩ := h.2.1 hcond
        cases hdeleted
      | ok deleted =>
        refine (ih reconciled hrest hreconciled).given fun s hs h => ⟨h.1.locks,
          fun hnone a' ha' => h.1.idle hnone a' (List.mem_cons_of_mem _ ha'),
          fun hcond => (h.1.uncommitted hcond).tail hs.ledger fun hget =>
            absurd hget (h.2.2 deleted rfl), h.1.committed, h.1.deliverable⟩
    | some current =>
      refine (stage_vouched (hK (a :: rest) reconciled) (hname current rfl)
        (fun hcond s h => h.committed hcond current rfl) fun _ s h => ⟨.mutation, ?_⟩).bind
        fun result => ?_
      · rw [← hkey]
        exact h.locks _ hlocked
      cases result with
      | error err =>
        refine (Sharing.Triple.of_pure (hfail err)).given fun s _ h => ⟨fun hcond => ?_, h.1⟩
        obtain ⟨staged, hstaged⟩ := h.2.2.2 hcond rfl
        cases hstaged
      | ok staged =>
        obtain ⟨next, applied⟩ := staged
        refine Sharing.Triple.given (Sharing.Triple.of_pure fun hnext : next.Fits =>
          ih (if applied then reconciled ++ [next] else reconciled) hrest ?_) fun s hs h => ?_
        · split_ifs
          · exact forall_append hreconciled hnext
          · exact hreconciled
        · obtain ⟨hrestoring, hstaged, hcleared, -⟩ := h
          obtain ⟨hnext, hdeliverable⟩ := hstaged next applied rfl
          refine ⟨hnext, hrestoring.locks, by simp, fun hcond => ?_, hrestoring.committed,
            fun hcond => ?_⟩
          · refine (hrestoring.uncommitted hcond).tail hs.ledger fun hget => ?_
            rw [hkey] at hget
            exact (hcleared hcond (.inr rfl) _ rfl _ hget).2
          · split_ifs
            · exact forall_append (hrestoring.deliverable hcond) (hdeliverable hcond)
            · exact hrestoring.deliverable hcond

theorem reconcileCurrent_triple (hm : m.Made payload since) :
    Retains cond i (Staging cond i m.locked m.attempts since) (reconcileCurrent m)
      fun result s => (∀ l, result = .ok l → ∀ a ∈ l, a.Fits) ∧
        Restored cond i m.locked result s := by
  have hattempts : ∀ a ∈ m.attempts, a.Fits ∧
      a.entry.id = outboxKey a.entry.peerID m.kind m.entity ∧ a.entry.id ∈ m.locked := by
    intro a ha
    refine ⟨hm.fits a ha, ?_, hm.locked a ha⟩
    obtain ⟨peerID, generation, rfl⟩ := hm.made a ha
    rfl
  have hK := @lasting_staging cond i m.locked m.attempts since
  unfold reconcileCurrent
  refine act_proper (fun result s => (cond = steady → ∃ read, result = .ok read) ∧
    ∀ current since, result = .ok (current, since) → (∀ payload, current = some payload →
        (notificationEntityFromPayload m.kind payload).getD m.entity = m.entity) ∧
      Restoring cond i m.locked m.entity current since m.attempts [] s) hK
    (fun s hs h hmay => ?_) fun result => ?_
  · have hdoes : Does cond i s (s.currentNotificationPayload m.kind m.entity).2 :=
      hs.does (hs.ledger.idle _ _) (unmoved_current ..)
    have hafter := hK s _ hdoes.follows h
    refine ⟨hdoes, ?_, fun current since hresult => ⟨?_, hafter.locks, ?_, hafter.uncommitted, ?_,
      fun _ a ha => absurd ha List.not_mem_nil⟩⟩
    · rintro rfl
      have hcurrent : s.around.current = none := hmay.2 rfl
      change ∃ read, (s.currentNotificationPayload m.kind m.entity).1 = .ok read
      unfold State.currentNotificationPayload
      cases s.catalog.current m.entity m.kind with
      | none | some _ => exact ⟨_, by simp [hcurrent]; rfl⟩
    · rintro payload rfl
      exact (committed_of_current hresult).1
    · rintro rfl a ha
      obtain ⟨peerID, generation, ha'⟩ := hm.made a ha
      exact idle_of_current hresult (h.put a ha) (by rw [ha']; rfl) (by rw [ha']; rfl)
    · rintro - payload rfl
      obtain ⟨-, rfl, hreflects, hmoment⟩ := committed_of_current hresult
      exact State.committed_now hmoment.ge hreflects
  cases result with
  | error err =>
    refine Sharing.Triple.given (Sharing.Triple.of_pure fun hcond : cond ≠ steady =>
      ret_lasting hK fun s h => ⟨by simp, h.locks, fun heq => absurd heq hcond, by simp,
        fun heq => absurd heq hcond⟩) fun s _ h => ⟨fun hcond => ?_, h.1⟩
    obtain ⟨read, hread⟩ := h.2.1 hcond
    cases hread
  | ok read =>
    obtain ⟨current, since⟩ := read
    exact (Sharing.Triple.of_pure fun hname =>
      reconcileAttempts_triple [] hname hattempts (by simp)).given fun s _ h => h.2.2 current since rfl

theorem unlockAll_triple (result : Except GoError (List OutboxAttempt)) {ids : List String}
    (hnodup : ids.Nodup) :
    Retains cond i (Restored cond i ids result) (unlockAll ids)
      fun _ s => ∀ l, result = .ok l → AllDeliverable cond l s := by
  induction ids with
  | nil => exact ret_lasting (lasting_restored _ _) fun s h => h.deliverable
  | cons id rest ih =>
    obtain ⟨hid, hrest⟩ := List.nodup_cons.1 hnodup
    refine act_unlock (lasting_restored _ _) (fun s h => ⟨_, h.locks id List.mem_cons_self⟩)
      (fun hcond s _ h e hget => ?_) (fun s h => ⟨fun id' hid' => ?_, fun hcond => ⟨fun id' hid' =>
        (h.uncommitted hcond).entries id' (List.mem_cons_of_mem _ hid'), (h.uncommitted hcond).recent⟩,
        h.deliverable, h.done⟩) (ih hrest)
    · refine ((h.uncommitted hcond).entries id List.mem_cons_self e hget).imp_right fun h => ?_
      refine h.resolve_right ?_
      rintro ⟨a, ha, -⟩
      exact List.not_mem_nil ha
    · refine (Function.update_of_ne ?_ _ _).trans (h.locks id' (List.mem_cons_of_mem _ hid'))
      rintro rfl
      exact hid hid'

theorem finishWith_triple (hnodup : m.locked.Nodup) {result : Except GoError (List OutboxAttempt)}
    (hfits : ∀ l, result = .ok l → ∀ a ∈ l, a.Fits) :
    Retains cond i (Restored cond i m.locked result) (finishWith m result) fun _ _ => True := by
  have hunlock : Retains cond i (Restored cond i m.locked result) (unlockAll m.locked.reverse)
      fun _ s => ∀ l, result = .ok l → AllDeliverable cond l s :=
    (unlockAll_triple result (List.nodup_reverse.2 hnodup)).given fun s _ h =>
      ⟨fun id hid => h.locks id (List.mem_reverse.1 hid), fun hcond =>
        ⟨fun id hid => (h.uncommitted hcond).entries id (List.mem_reverse.1 hid),
          (h.uncommitted hcond).recent⟩, h.deliverable, h.done⟩
  refine hunlock.bind fun _ => ?_
  rcases result with err | attempts
  · exact ret_done
  exact Sharing.Triple.given (Sharing.Triple.bind (deliverOutboxAttemptsAsync_triple false
    (hfits attempts rfl)) fun _ => ret_done) fun s _ h => h attempts rfl

/-- A mutation that is committed may leave its entries, and one that is not takes them back. -/
theorem finish_triple (hm : m.Made payload since) (committed : Bool) :
    Retains cond i (fun s => Staging cond i m.locked m.attempts since s ∧
        (committed → cond = steady → ∀ a ∈ m.attempts, s.Vouched a.entry))
      (finish m committed) fun _ _ => True := by
  cases committed with
  | true =>
    refine (@finishWith_triple _ _ _ hm.nodup (.ok m.attempts) fun l hl => ?_).given fun s _ h =>
      ⟨h.1.locks, fun hcond => ⟨fun id hid e hget => ?_, by simp⟩, fun l hl hcond a ha => ?_,
        fun _ => ⟨_, rfl⟩⟩
    · obtain rfl := Except.ok.inj hl
      exact hm.fits
    · rcases (h.1.uncommitted hcond).entries id hid e hget with hvouched | hold | ⟨a, ha, rfl⟩
      · exact .inl hvouched
      · exact .inr (.inl hold)
      · exact .inl (h.2 rfl hcond a ha)
    · obtain rfl := Except.ok.inj hl
      exact .inr (h.2 rfl hcond a ha)
  | false =>
    refine Sharing.Triple.given (Sharing.Triple.bind (reconcileCurrent_triple hm) fun result => ?_)
      fun _ _ h => h.1
    exact Sharing.Triple.of_pure (finishWith_triple hm.nodup)

/-! ## Preparing -/

theorem StagedOutboxMutation.Made.lock (hm : m.Made payload since) (hid : id ∉ m.locked) :
    { m with locked := m.locked ++ [id] }.Made payload since where
  nodup := by
    refine List.nodup_append.2 ⟨hm.nodup, List.nodup_singleton _, ?_⟩
    rintro a ha b hb rfl
    exact hid (List.mem_singleton.1 hb ▸ ha)
  made := hm.made
  locked := fun a ha => List.mem_append_left _ (hm.locked a ha)

/-- It finds nothing under the key that is not vouched for and not from before the last
start. -/
theorem Staging.lock (hs : Kept cond s) (h : Staging cond i locked attempts since s)
    (hfree : s.locks id = none) :
    id ∉ locked ∧ Staging cond i (locked ++ [id]) attempts since
      { s with locks := Function.update s.locks id (some (i, .mutation)) } := by
  have hnew : id ∉ locked := by
    intro hmem
    simp [h.locks id hmem] at hfree
  refine ⟨hnew, fun id' hid' => ?_, h.put, h.since, fun hcond => ⟨fun id' hid' e hget => ?_,
    (h.uncommitted hcond).recent⟩⟩
  · rcases List.mem_append.1 hid' with hold | hlast
    · refine (Function.update_of_ne ?_ _ _).trans (h.locks id' hold)
      rintro rfl
      exact hnew hold
    · rw [List.mem_singleton.1 hlast]
      exact Function.update_self ..
  · rcases List.mem_append.1 hid' with hid' | hid'
    · exact (h.uncommitted hcond).entries id' hid' e hget
    obtain rfl := List.mem_singleton.1 hid'
    refine ((hs.announced hcond).vouched hget).imp_right fun h => .inl (h.resolve_right ?_)
    rintro ⟨j, hj⟩
    simp [hfree] at hj

theorem prepareForPeers_triple {peerIDs : List String} {staged : StagedOutboxMutation}
    (hstaged : staged.Made payload since)
    (hname : (notificationEntityFromPayload staged.kind payload).getD staged.entity
      = staged.entity) (hentity : cond = steady → staged.entity ≠ "") :
    Retains cond i (Staging cond i staged.locked staged.attempts since)
      (prepareForPeers since payload peerIDs staged)
      fun result s => ∀ m, result = .ok m → (m.Made payload since ∧ m.entity = staged.entity) ∧
        Staging cond i m.locked m.attempts since s := by
  induction peerIDs generalizing staged with
  | nil =>
    refine ret_lasting (lasting_staging _ _ _) fun s h m hm => ?_
    obtain rfl := Except.ok.inj hm
    exact ⟨⟨hstaged, rfl⟩, h⟩
  | cons peerID rest ih =>
    unfold prepareForPeers
    set lockID := outboxKey peerID staged.kind staged.entity
    refine act_lock_with (fun s => lockID ∉ staged.locked ∧
      Staging cond i (staged.locked ++ [lockID]) staged.attempts since s) (lasting_staging _ _ _)
      (fun s hs h hfree => h.lock hs hfree) ?_
    refine Sharing.Triple.given (Sharing.Triple.of_pure fun hnew => ?_) fun s _ h => h.2
    have hmade := hstaged.lock hnew
    set locked : StagedOutboxMutation := { staged with locked := staged.locked ++ [lockID] }
    have hmem : lockID ∈ locked.locked := List.mem_append_right _ (List.mem_singleton_self _)
    change Retains cond i (Staging cond i locked.locked locked.attempts since)
      (stageOutbox .mutation since peerID locked.kind locked.entity payload >>= _) _
    refine (stage_mutation hname hentity hmem).bind fun result => ?_
    match result with
    | .error err =>
      refine Sharing.Triple.given (Sharing.Triple.bind (finish_triple hmade false) fun _ => ?_)
        fun s _ h => ⟨?_, by simp⟩
      · exact ret_lasting lasting_true fun s _ m hm => by cases hm
      · obtain ⟨-, -, h⟩ | ⟨_, _, heq, -⟩ := h
        · exact h
        · cases heq
    | .ok (attempt, current) =>
      refine Sharing.Triple.given (Sharing.Triple.of_pure
        fun (hattempt : ∃ generation, attempt = stagedAttempt since peerID staged.kind staged.entity
          payload generation) => (?_ : Retains cond i (Staging cond i locked.locked
            (withAttempt locked.attempts attempt (.ok current)) since) _ _)) fun s _ h => ?_
      · rcases current with _ | _
        · exact ih hmade hname hentity
        obtain ⟨generation, hattempt⟩ := hattempt
        refine @ih { locked with attempts := locked.attempts ++ [attempt] } ⟨hmade.nodup, ?_, ?_⟩
          hname hentity
        · exact forall_append hmade.made ⟨peerID, generation, hattempt⟩
        · refine forall_append hmade.locked ?_
          rwa [hattempt]
      · obtain ⟨_, heq, -⟩ | ⟨generation, applied, heq, h⟩ := h
        · cases heq
        · cases heq
          exact ⟨⟨generation, rfl⟩, h⟩

theorem prepareOutboxMutation_triple {m : Mutation} (hm : cond = steady → m.entity ≠ "") :
    Retains cond i (fun _ => True) (prepareOutboxMutation m.kind m.entity m.payload)
      fun result s => ∀ staged, result = .ok staged →
        ∃ since, (staged.Made m.payload since ∧ staged.entity = m.entity) ∧
          Staging cond i staged.locked staged.attempts since s := by
  unfold prepareOutboxMutation
  refine act_silent lasting_true (fun s hs _ => hs.same) fun peerIDs => ?_
  refine act_proper (fun since s => since ≤ s.moment) lasting_true
    (fun s hs _ _ => ⟨hs.same, le_rfl⟩) fun since => ?_
  have hempty : (⟨m.kind, m.entity, [], []⟩ : StagedOutboxMutation).Made m.payload since :=
    ⟨List.nodup_nil, fun a ha => absurd ha List.not_mem_nil, fun a ha => absurd ha List.not_mem_nil⟩
  refine (prepareForPeers_triple hempty m.payload_entity hm).weaken (fun s _ h => ?_)
    fun result s _ h staged hstaged => ⟨since, h staged hstaged⟩
  exact ⟨by simp, by simp, fun _ => h.2, fun _ => ⟨by simp, by simp⟩⟩

theorem vouched_of_apply {m : Mutation} (hentity : e.entity = m.entity)
    (hpayload : e.payload = m.payload) (hsince : e.since ≤ s.moment) (h : (s.apply m).1 = none) :
    (s.apply m).2.Vouched e := by
  have hset : (s.setCatalog (m.apply s.catalog)).Vouched e := by
    unfold State.Vouched
    rw [hentity, hpayload]
    refine State.committed_now (hsince.trans ?_) (m.apply_reflects s.catalog)
    exact State.moment_mono (unmoved_setCatalog s _).timeline
  unfold State.apply at h ⊢
  cases happly : s.around.apply with
  | done => exact hset
  | failed err => simp [happly] at h
  | torn err => exact hset

theorem commitCatalogMutation_triple {m : Mutation} (hm : cond = steady → m.entity ≠ "") :
    Retains cond i (fun _ => True) (commitCatalogMutation m) fun _ _ => True := by
  unfold commitCatalogMutation
  refine (prepareOutboxMutation_triple hm).bind fun result => ?_
  rcases result with err | staged
  · exact ret_done
  intro s hs h
  obtain ⟨since, ⟨hmade, hentity⟩, hstaging⟩ := h staged rfl
  refine act_proper (K := Staging cond i staged.locked staged.attempts since) (fun result s =>
    result.isNone → cond = steady → ∀ a ∈ staged.attempts, s.Vouched a.entry)
    (lasting_staging _ _ _) (fun s hs h _ => ?_) (fun mutationErr => ?_) s hs hstaging
  · refine ⟨hs.does (hs.ledger.apply m) (unmoved_apply s m), fun hdone hcond a ha => ?_⟩
    obtain ⟨peerID, generation, rfl⟩ := hmade.made a ha
    exact vouched_of_apply hentity rfl (h.since hcond) (Option.isNone_iff_eq_none.1 hdone)
  · exact (finish_triple hmade _).bind fun _ => ret_done

theorem request_triple {request : Request} (hasks : cond.asks request) :
    Retains cond i (fun _ => True) request.thread fun _ _ => True := by
  cases request with
  | enqueue peerID kind dedupe payload => exact enqueueOutbox_triple peerID kind dedupe payload
  | notify peerID kind dedupe payload =>
    exact (notifyWithOutbox_triple peerID kind dedupe payload).bind fun _ => ret_done
  | mutate m =>
    refine (commitCatalogMutation_triple ?_).bind fun _ => ret_done
    rintro rfl
    exact hasks
  | flush => exact flushOutbox_triple

end Threads

/-! ## Runs -/

theorem kept_fresh {cond : Condition} : Kept cond fresh.state where
  ledger := by
    refine ⟨⟨.nil, fun h => ?_, fun h => ?_, fun h => ?_, fun _ => .nil, .nil⟩, fun h => ?_,
      fun h => ?_, fun h => ?_, fun h => ?_, fun h => ?_, fun p hp => ?_⟩
    all_goals simp [fresh] at *
  announced := fun _ => by
    refine ⟨le_rfl, fun h => ?_, fun h => ?_, fun h => ?_, fun p hp => ?_, fun h => ?_⟩
    all_goals simp [fresh] at *

theorem sound_step {cond : Condition} {c' : Crew Action State}
    (h : (sharing cond).Sound node cond.may c) (hstep : Step cond c c') :
    (sharing cond).Sound node cond.may c' := by
  have hlog : c.state.log <+: c.state.log := List.prefix_rfl
  cases hstep with
  | act hact => exact h.step hact
  | ask i request hidle hasks => exact h.assign (request_triple hasks) trivial
  | deliver i a tracked before rest hidle hspawned =>
    have hmem : (a, tracked) ∈ c.state.spawned := by simp [hspawned]
    have hsub : ∀ p ∈ before ++ rest, p ∈ c.state.spawned := by
      intro p hp
      rw [hspawned]
      rcases List.mem_append.1 hp with hp | hp
      · exact List.mem_append_left _ hp
      · exact List.mem_append_right _ (List.mem_cons_of_mem _ hp)
    refine Sharing.Sound.assign (h.interfere (s := { c.state with spawned := before ++ rest })
      ⟨?_, fun hcond => ?_⟩ fun i => ⟨⟨hlog, id, fun _ _ hevent _ => hevent⟩, fun _ => ?_⟩)
      (deliverOutboxTracked_triple (h.inv.ledger.spawned _ hmem) tracked)
      fun hcond => (h.inv.announced hcond).spawned _ hmem
    · exact h.inv.ledger.congr rfl rfl (id) rfl fun p hp => h.inv.ledger.spawned p (hsub p hp)
    · have hinv := h.inv.announced hcond
      exact ⟨hinv.boot, hinv.since, hinv.named, hinv.vouched,
        fun p hp => hinv.spawned p (hsub p hp), hinv.sent⟩
    · exact ⟨rfl, le_rfl, List.prefix_rfl, id, .inl⟩
  | remote catalog =>
    have hunmoved := unmoved_setCatalog c.state catalog
    exact h.interfere ⟨h.inv.ledger.congr rfl rfl (id) rfl h.inv.ledger.spawned,
      fun hcond => hunmoved.announced (h.inv.announced hcond)⟩
      fun i => ⟨⟨hlog, id, fun _ _ hevent _ => hevent⟩, fun _ => hunmoved.regards i⟩
  | surroundings around =>
    have hunmoved : Unmoved c.state { c.state with around } :=
      ⟨rfl, le_rfl, List.prefix_rfl, id, id, rfl, id⟩
    exact h.interfere ⟨h.inv.ledger.congr rfl rfl (id) rfl h.inv.ledger.spawned,
      fun hcond => hunmoved.announced (h.inv.announced hcond)⟩
      fun i => ⟨⟨hlog, id, fun _ _ hevent _ => hevent⟩, fun _ => hunmoved.regards i⟩
  | restart =>
    refine Sharing.Sound.idle ⟨h.inv.ledger.congr rfl rfl (fun hget => ?_) rfl
      fun p hp => absurd hp List.not_mem_nil, fun hcond => ?_⟩
    · simp [State.restart] at hget
    -- All that is in the store is from before the start.
    have hinv := h.inv.announced hcond
    exact ⟨le_rfl, hinv.since, hinv.named,
      fun hget => .inr (.inl (h.inv.ledger.put (h.inv.ledger.stored hget).2.1)),
      fun p hp => absurd hp List.not_mem_nil, hinv.sent⟩

theorem kept_of_reachable {cond : Condition} (h : Reachable cond c) : Kept cond c.state := by
  have hsound : (sharing cond).Sound node cond.may c := by
    induction h with
    | refl => exact .idle kept_fresh
    | tail _ hstep ih => exact sound_step ih hstep
  exact hsound.inv

end Proxyma.Outbox
