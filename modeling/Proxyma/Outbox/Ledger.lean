import Proxyma.Outbox.Engine

/-!
# What becomes of an entry

Generations only grow, so what is put under a key replaces older things only.  An entry is
deleted only by its exact bytes, and only by a thread that holds the lock of its key and has a
reason: it has sent these bytes, or it has found that there is nothing to say about the
entity.  Under the same lock an entry is compared with the store before it is sent.

The log is the memory of all this.  `Ledger` is what the log and the store have to do with
each other at all times; `Undisturbed` says what the holder of a lock can rely on: nobody else
sends or deletes under its key.  That an entry may be sent is known from its comparison with
the store on (`Ready`).
-/

namespace Proxyma.Outbox

open Keyed Atomic Atomic.Prog

/-! ## Reading the log -/

namespace Event

/-- The generation that was handed out. -/
def reservedGeneration : Event → Option ℕ
  | .reserved _ _ generation => some generation
  | _ => none

/-- The generation that was handed to the network under a key. -/
def sentUnder (id : String) : Event → Option ℕ
  | .sent e _ _ => if e.id = id then some e.generation else none
  | _ => none

/-- The event is a sending or a deletion under a key. -/
def Touches (id : String) : Event → Prop
  | .sent e _ _ => e.id = id
  | .deleted e => e.id = id
  | _ => False

theorem mem_reservedGeneration {log : List Event} {generation : ℕ} :
    generation ∈ log.filterMap reservedGeneration ↔
      ∃ owner id, .reserved owner id generation ∈ log := by
  rw [List.mem_filterMap]
  constructor
  · rintro ⟨event, hevent, hgeneration⟩
    cases event with
    | reserved owner id generation' =>
      obtain rfl : generation' = generation := by simpa [reservedGeneration] using hgeneration
      exact ⟨owner, id, hevent⟩
    | _ => simp [reservedGeneration] at hgeneration
  · rintro ⟨owner, id, hevent⟩
    exact ⟨_, hevent, rfl⟩

theorem mem_sentUnder {log : List Event} {id : String} {generation : ℕ} :
    generation ∈ log.filterMap (sentUnder id) ↔
      ∃ e ok moment, .sent e ok moment ∈ log ∧ e.id = id ∧ e.generation = generation := by
  rw [List.mem_filterMap]
  constructor
  · rintro ⟨event, hevent, hgeneration⟩
    cases event with
    | sent e ok moment =>
      simp only [sentUnder, Option.ite_none_right_eq_some, Option.some.injEq] at hgeneration
      exact ⟨e, ok, moment, hevent, hgeneration⟩
    | _ => simp [sentUnder] at hgeneration
  · rintro ⟨e, ok, moment, hevent, hid, rfl⟩
    exact ⟨_, hevent, by simp [sentUnder, hid]⟩

end Event

/-- An entry that was staged: its key is made of its fields, and an entity that the payload
names is there. -/
structure OutboxEntry.Canonical (e : OutboxEntry) : Prop where
  key : e.id = outboxKey e.peerID e.kind e.entity
  named : e.entity = "" → notificationEntityFromPayload e.kind e.payload = none

/-- An attempt to deliver an entry is made under the key of the entry. -/
structure OutboxAttempt.Fits (a : OutboxAttempt) : Prop where
  storage : a.storageID = a.entry.id
  lock : a.lockID = a.entry.id

/-- There is nothing left to say about the entity of an entry, found after the entry was
put. -/
def Idle (log : List Event) (e : OutboxEntry) : Prop :=
  ∃ before rest, log = before ++ .idle e.kind e.entity :: rest ∧ .put e ∈ before

theorem Idle.mono {log log' : List Event} {e : OutboxEntry} (h : Idle log e)
    (hlog : log <+: log') : Idle log' e := by
  obtain ⟨before, rest, rfl, hput⟩ := h
  obtain ⟨events, rfl⟩ := hlog
  exact ⟨before, rest ++ events, by simp, hput⟩

/-- An entry is in the store, or there is a reason why not. -/
def State.Accounts (s : State) (e : OutboxEntry) : Prop :=
  s.entries.get e.id = some e ∨
  (∃ e', .put e' ∈ s.log ∧ e'.id = e.id ∧ e.generation < e'.generation) ∨
  (∃ moment, .sent e true moment ∈ s.log) ∨
  Idle s.log e

/-- A generation is not sent after it was deleted. -/
def Settled (earlier later : Event) : Prop :=
  ∀ e' e ok moment, earlier = .deleted e' → later = .sent e ok moment → e'.id = e.id →
    e'.generation ≠ e.generation

/-- What holds of the log alone. -/
structure Record (log : List Event) : Prop where
  increasing : (log.filterMap Event.reservedGeneration).Pairwise (· < ·)
  canonical : ∀ {e}, .put e ∈ log → e.Canonical
  sent : ∀ {e ok moment}, .sent e ok moment ∈ log → .put e ∈ log
  deleted : ∀ {e}, .deleted e ∈ log → .put e ∈ log
  ordered : ∀ id, (log.filterMap (Event.sentUnder id)).Pairwise (· ≤ ·)
  settled : log.Pairwise Settled

/-- What holds of a node at all times. -/
structure Ledger (s : State) : Prop where
  record : Record s.log
  counted : ∀ {owner id generation}, .reserved owner id generation ∈ s.log →
    generation ≤ s.generation
  pending : ∀ {id generation}, s.reservations.get id = some generation →
    generation ≤ s.generation ∧ ∀ e, .put e ∈ s.log → e.id = id → e.generation < generation
  put : ∀ {e}, .put e ∈ s.log → e.generation ≤ s.generation
  stored : ∀ {id e}, s.entries.get id = some e → e.id = id ∧ .put e ∈ s.log ∧
    .deleted e ∉ s.log ∧ ∀ e', .put e' ∈ s.log → e'.id = id → e' = e ∨ e'.generation < e.generation
  retained : ∀ {e}, .put e ∈ s.log → s.Accounts e
  spawned : ∀ p ∈ s.spawned, p.1.Fits

/-- What all threads but `i` leave alone. -/
structure Undisturbed (i : ℕ) (s s' : State) : Prop where
  log : s.log <+: s'.log
  locks : ∀ {id purpose}, s.locks id = some (i, purpose) → s'.locks id = some (i, purpose)
  quiet : ∀ {id purpose}, s.locks id = some (i, purpose) →
    ∀ event ∈ s'.log, event.Touches id → event ∈ s.log

theorem Undisturbed.refl (i : ℕ) (s : State) : Undisturbed i s s :=
  ⟨List.prefix_rfl, id, fun _ _ h _ => h⟩

theorem Undisturbed.trans {i : ℕ} {a b d : State} (hab : Undisturbed i a b)
    (hbd : Undisturbed i b d) : Undisturbed i a d where
  log := hab.log.trans hbd.log
  locks := fun h => hbd.locks (hab.locks h)
  quiet := fun h event hevent htouches =>
    hab.quiet h event (hbd.quiet (hab.locks h) event hevent htouches) htouches

/-! ## What actions do -/

/-- What an action of thread `i` may do, other than to lock and to unlock. -/
structure Proper (i : ℕ) (s s' : State) : Prop where
  inv : Ledger s'
  others : ∀ j, j ≠ i → Undisturbed j s s'
  log : s.log <+: s'.log
  locks : s'.locks = s.locks

section Actions

variable {i : ℕ} {s : State}
variable {s' : State} {e : OutboxEntry} {event : Event}

/-- An action leaves the others undisturbed if it sends and deletes only under keys whose
lock is its own. -/
theorem undisturbed_of_events {events : List Event} (hlog : s'.log = s.log ++ events)
    (hlocks : s'.locks = s.locks)
    (hevents : ∀ event ∈ events, ∀ id, event.Touches id → ∃ purpose, s.locks id = some (i, purpose))
    {j : ℕ} (hj : j ≠ i) : Undisturbed j s s' where
  log := by
    rw [hlog]
    exact List.prefix_append _ _
  locks := by
    rw [hlocks]
    exact id
  quiet := by
    intro id purpose hlock event hevent htouches
    rw [hlog] at hevent
    rcases List.mem_append.1 hevent with hold | hnew
    · exact hold
    · obtain ⟨purpose', hown⟩ := hevents event hnew id htouches
      rw [hlock] at hown
      exact absurd (congrArg Prod.fst (Option.some.inj hown)) hj

theorem proper_of_events (hinv : Ledger s') {events : List Event} (hlog : s'.log = s.log ++ events)
    (hlocks : s'.locks = s.locks)
    (hevents : ∀ event ∈ events, ∀ id, event.Touches id →
      ∃ purpose, s.locks id = some (i, purpose)) : Proper i s s' :=
  ⟨hinv, fun _ hj => undisturbed_of_events hlog hlocks hevents hj,
    hlog ▸ List.prefix_append _ _, hlocks⟩

theorem State.Accounts.mono (h : s.Accounts e) (hlog : s.log <+: s'.log)
    (hstored : s.entries.get e.id = some e → s'.Accounts e) : s'.Accounts e := by
  rcases h with h | ⟨e', hput, hid, hlt⟩ | ⟨moment, hsent⟩ | hidle
  · exact hstored h
  · exact .inr (.inl ⟨e', hlog.subset hput, hid, hlt⟩)
  · exact .inr (.inr (.inl ⟨moment, hlog.subset hsent⟩))
  · exact .inr (.inr (.inr (hidle.mono hlog)))

/-- What the ledger says does not depend on the rest of the state. -/
theorem Ledger.congr (h : Ledger s) (hlog : s'.log = s.log) (hentries : s'.entries = s.entries)
    (hreservations : ∀ {id generation}, s'.reservations.get id = some generation →
      s.reservations.get id = some generation) (hgeneration : s'.generation = s.generation)
    (hspawned : ∀ p ∈ s'.spawned, p.1.Fits) : Ledger s' := by
  obtain ⟨generation, reservations, entries, catalog, locks, flushing, spawned, inFlight, around,
    boot, past, log⟩ := s'
  subst hlog hentries hgeneration
  exact ⟨h.record, h.counted, fun hget => h.pending (hreservations hget), h.put, h.stored,
    fun hput => (h.retained hput).mono List.prefix_rfl .inl, hspawned⟩

/-- What may come next in the log. -/
def Admissible (log : List Event) : Event → Prop
  | .reserved _ _ generation => ∀ owner' id' generation', .reserved owner' id' generation' ∈ log →
      generation' < generation
  | .put e => e.Canonical
  | .sent e _ _ => .put e ∈ log ∧
      (∀ e' ok moment, .sent e' ok moment ∈ log → e'.id = e.id →
        e'.generation ≤ e.generation) ∧
      ∀ e', .deleted e' ∈ log → e'.id = e.id → e'.generation ≠ e.generation
  | .deleted e => .put e ∈ log
  | _ => True

theorem Record.append {log : List Event} (h : Record log) (hevent : Admissible log event) :
    Record (log ++ [event]) where
  increasing := by
    rw [List.filterMap_append, List.pairwise_append]
    refine ⟨h.increasing, .filterMap _ (fun _ _ h => h) (List.pairwise_singleton _ _), ?_⟩
    intro generation' hold generation hnew
    obtain ⟨owner', id', hold⟩ := Event.mem_reservedGeneration.1 hold
    obtain ⟨owner, id, hnew⟩ := Event.mem_reservedGeneration.1 hnew
    obtain rfl := List.mem_singleton.1 hnew
    exact hevent owner' id' generation' hold
  canonical := by
    intro e he
    rcases List.mem_append.1 he with hold | hnew
    · exact h.canonical hold
    · obtain rfl := List.mem_singleton.1 hnew
      exact hevent
  sent := by
    intro e ok moment he
    rcases List.mem_append.1 he with hold | hnew
    · exact List.mem_append_left _ (h.sent hold)
    · obtain rfl := List.mem_singleton.1 hnew
      exact List.mem_append_left _ hevent.1
  deleted := by
    intro e he
    rcases List.mem_append.1 he with hold | hnew
    · exact List.mem_append_left _ (h.deleted hold)
    · obtain rfl := List.mem_singleton.1 hnew
      exact List.mem_append_left _ hevent
  ordered := by
    intro id
    rw [List.filterMap_append, List.pairwise_append]
    refine ⟨h.ordered id, .filterMap _ (fun _ _ h => h) (List.pairwise_singleton _ _), ?_⟩
    intro generation' hold generation hnew
    obtain ⟨e', ok', moment', hsent', hid', rfl⟩ := Event.mem_sentUnder.1 hold
    obtain ⟨e, ok, moment, hsent, hid, rfl⟩ := Event.mem_sentUnder.1 hnew
    obtain rfl := List.mem_singleton.1 hsent
    exact hevent.2.1 e' ok' moment' hsent' (hid'.trans hid.symm)
  settled := by
    rw [List.pairwise_append]
    refine ⟨h.settled, List.pairwise_singleton _ _, ?_⟩
    rintro earlier hold later hnew e' e ok moment rfl rfl hid
    obtain rfl := List.mem_singleton.1 hnew
    exact hevent.2.2 e' hold hid

theorem Ledger.append (h : Ledger s) (hlog : s'.log = s.log ++ [event])
    (hadmissible : Admissible s.log event) (hput : ∀ e, event ≠ .put e)
    (hdeleted : ∀ e, event ≠ .deleted e) (hentries : s'.entries = s.entries)
    (hspawned : s'.spawned = s.spawned) (hgeneration : s.generation ≤ s'.generation)
    (hcounted : ∀ owner id generation, event = .reserved owner id generation →
      generation ≤ s'.generation)
    (hpending : ∀ id generation, s'.reservations.get id = some generation →
      s.reservations.get id = some generation ∨
        s.generation < generation ∧ generation ≤ s'.generation) : Ledger s' := by
  have hold : ∀ {event'}, event' ∈ s'.log → event' ∈ s.log ∨ event' = event := by
    intro event' hmem
    rw [hlog] at hmem
    simpa using hmem
  have hextends : s.log <+: s'.log := hlog ▸ List.prefix_append _ _
  have holdPut : ∀ {e}, .put e ∈ s'.log → .put e ∈ s.log :=
    fun he => (hold he).resolve_right fun heq => hput _ heq.symm
  refine ⟨hlog ▸ h.record.append hadmissible, ?_, ?_, ?_, ?_, ?_, hspawned ▸ h.spawned⟩
  · intro owner id generation hreserved
    rcases hold hreserved with hreserved | heq
    · exact (h.counted hreserved).trans hgeneration
    · exact hcounted owner id generation heq.symm
  · intro id generation hget
    rcases hpending id generation hget with hget | ⟨hlt, hle⟩
    · exact ⟨(h.pending hget).1.trans hgeneration, fun e he => (h.pending hget).2 e (holdPut he)⟩
    · exact ⟨hle, fun e he _ => (h.put (holdPut he)).trans_lt hlt⟩
  · exact fun he => (h.put (holdPut he)).trans hgeneration
  · intro id e hget
    rw [hentries] at hget
    obtain ⟨hid, hput', hdeleted', hlatest⟩ := h.stored hget
    refine ⟨hid, hextends.subset hput', fun hmem => ?_, fun e' he' => hlatest e' (holdPut he')⟩
    exact hdeleted' ((hold hmem).resolve_right fun heq => hdeleted _ heq.symm)
  · intro e he
    refine (h.retained (holdPut he)).mono hextends fun hget => .inl ?_
    rwa [hentries]

theorem Ledger.proper_same (h : Ledger s) : Proper i s s :=
  ⟨h, fun j _ => .refl j s, List.prefix_rfl, rfl⟩

theorem Ledger.elsewhere (h : Ledger s) (hlog : s'.log = s.log) (hentries : s'.entries = s.entries)
    (hreservations : s'.reservations = s.reservations) (hgeneration : s'.generation = s.generation)
    (hlocks : s'.locks = s.locks) (hspawned : ∀ p ∈ s'.spawned, p.1.Fits) : Proper i s s' :=
  proper_of_events (h.congr hlog hentries (fun hget => hreservations ▸ hget) hgeneration hspawned)
    (hlog.trans (List.append_nil _).symm) hlocks (by simp)

theorem Ledger.note (h : Ledger s) (hadmissible : Admissible s.log event)
    (hput : ∀ e, event ≠ .put e) (hdeleted : ∀ e, event ≠ .deleted e)
    (hreserved : ∀ owner id generation, event ≠ .reserved owner id generation)
    (htouches : ∀ id, ¬ event.Touches id) : Proper i s (s.record event) := by
  refine @proper_of_events i s _ ?_ [event] rfl rfl ?_
  · exact h.append rfl hadmissible hput hdeleted rfl rfl le_rfl
      (fun owner id generation heq => absurd heq (hreserved owner id generation))
      fun _ _ hget => .inl hget
  · rintro event' hevent id htouches'
    obtain rfl := List.mem_singleton.1 hevent
    exact absurd htouches' (htouches id)

theorem Ledger.reserve (h : Ledger s) (id : String) :
    Proper i s (s.reserveOutboxGeneration i id).2 := by
  unfold State.reserveOutboxGeneration
  rcases s.around.reserve with _ | err
  swap
  · exact h.proper_same
  split_ifs
  · exact h.proper_same
  refine @proper_of_events i s _ ?_ [.reserved i id (s.generation + 1)] rfl rfl ?_
  · refine h.append rfl ?_ (by simp) (by simp) rfl rfl (Nat.le_succ _) ?_ ?_
    · intro owner' id' generation' hmem
      exact Nat.lt_succ_of_le (h.counted hmem)
    · rintro owner' id' generation heq
      cases heq
      exact le_rfl
    · intro id' generation hget
      rw [Bucket.get_put] at hget
      split_ifs at hget
      · cases hget
        exact .inr ⟨Nat.lt_succ_self _, le_rfl⟩
      · exact .inl hget
  · rintro event hevent key htouches
    obtain rfl := List.mem_singleton.1 hevent
    exact htouches.elim

theorem Ledger.release (h : Ledger s) (id : String) (generation : ℕ) :
    Proper i s (s.releaseOutboxGeneration id generation).2 := by
  unfold State.releaseOutboxGeneration
  rcases s.around.release with _ | err
  swap
  · exact h.proper_same
  split_ifs
  · refine @proper_of_events i s _ ?_ [] (by simp) rfl (by simp)
    refine h.congr rfl rfl ?_ rfl h.spawned
    intro id' generation' hget
    rw [Bucket.get_erase] at hget
    split_ifs at hget
    exact hget
  · exact h.proper_same

/-- The put of a staging: the new entry has the generation that was reserved for it. -/
theorem Ledger.putEntry (h : Ledger s) (hcanonical : e.Canonical) :
    Proper i s (s.putOutboxRawIfCurrentGeneration e.id e.generation e).2 := by
  unfold State.putOutboxRawIfCurrentGeneration
  rcases s.around.put with _ | err
  swap
  · exact h.note trivial (by simp) (by simp) (by simp) fun _ => id
  split_ifs with hreserved
  swap
  · exact h.note trivial (by simp) (by simp) (by simp) fun _ => id
  refine @proper_of_events i s _ ?_ [.put e] rfl rfl ?_
  swap
  · rintro event hevent key htouches
    obtain rfl := List.mem_singleton.1 hevent
    exact htouches.elim
  obtain ⟨hbound, hnewer⟩ := h.pending hreserved
  have hold : ∀ {event}, event ∈ s.log ++ [.put e] → event ∈ s.log ∨ event = .put e := by
    intro event hmem
    simpa using hmem
  have holdPut : ∀ {e'}, .put e' ∈ s.log ++ [.put e] → .put e' ∈ s.log ∨ e' = e := by
    intro e' hmem
    exact (hold hmem).imp_right fun heq => Event.put.inj heq
  refine ⟨h.record.append hcanonical, ?_, ?_, ?_, ?_, ?_, h.spawned⟩
  · exact fun hmem => h.counted ((hold hmem).resolve_right fun heq => by cases heq)
  · intro id generation hget
    rw [Bucket.get_erase] at hget
    split_ifs at hget with hid
    refine ⟨(h.pending hget).1, fun e' he' hid' => ?_⟩
    rcases holdPut he' with he' | rfl
    · exact (h.pending hget).2 e' he' hid'
    · exact absurd hid'.symm hid
  · intro e' he'
    rcases holdPut he' with he' | rfl
    · exact h.put he'
    · exact hbound
  · intro id e' hget
    dsimp only at hget
    rw [Bucket.get_put] at hget
    split_ifs at hget with hid
    · cases hget
      refine ⟨hid.symm, by simp, fun hmem => ?_, fun e' he' hid' => ?_⟩
      · have hput := h.record.deleted ((hold hmem).resolve_right fun heq => by cases heq)
        exact lt_irrefl _ (hnewer e hput rfl)
      · rcases holdPut he' with he' | rfl
        · exact .inr (hnewer e' he' (hid'.trans hid))
        · exact .inl rfl
    · obtain ⟨hid', hput, hdeleted, hlatest⟩ := h.stored hget
      refine ⟨hid', List.mem_append_left _ hput, fun hmem => hdeleted ?_, fun e'' he'' hid'' => ?_⟩
      · exact (hold hmem).resolve_right fun heq => by cases heq
      · rcases holdPut he'' with he'' | rfl
        · exact hlatest e'' he'' hid''
        · exact absurd hid''.symm hid
  · intro e' he'
    rcases holdPut he' with he' | rfl
    · -- What was under the key before is replaced.
      refine (h.retained he').mono (List.prefix_append _ _) fun hget => ?_
      by_cases hid : e'.id = e.id
      · exact .inr (.inl ⟨e, by simp, hid.symm, hnewer e' he' hid⟩)
      · refine .inl ?_
        rwa [Bucket.get_put, if_neg hid]
    · refine .inl ?_
      dsimp only
      rw [Bucket.get_put, if_pos rfl]

/-- The deletion of an entry, by the holder of its lock and with a reason. -/
theorem Ledger.deleteEntry (h : Ledger s) {purpose : Purpose}
    (hlock : s.locks e.id = some (i, purpose))
    (hreason : (∃ moment, .sent e true moment ∈ s.log) ∨ Idle s.log e) :
    Proper i s (s.deleteOutboxEntryIfUnchanged e.id e).2 := by
  unfold State.deleteOutboxEntryIfUnchanged
  rcases s.around.delete with _ | err
  swap
  · exact h.proper_same
  split_ifs with hstored
  swap
  · exact h.proper_same
  refine @proper_of_events i s _ ?_ [.deleted e] rfl rfl ?_
  swap
  · rintro event hevent key htouches
    obtain rfl := List.mem_singleton.1 hevent
    exact ⟨purpose, htouches ▸ hlock⟩
  have hold : ∀ {event}, event ∈ s.log ++ [.deleted e] → event ∈ s.log ∨ event = .deleted e := by
    intro event hmem
    simpa using hmem
  have holdPut : ∀ {e'}, .put e' ∈ s.log ++ [.deleted e] → .put e' ∈ s.log :=
    fun hmem => (hold hmem).resolve_right fun heq => by cases heq
  have hextends : s.log <+: s.log ++ [.deleted e] := List.prefix_append _ _
  refine ⟨h.record.append (h.stored hstored).2.1, ?_, ?_, fun he => h.put (holdPut he), ?_, ?_,
    h.spawned⟩
  · exact fun hmem => h.counted ((hold hmem).resolve_right fun heq => by cases heq)
  · exact fun hget => ⟨(h.pending hget).1, fun e' he' => (h.pending hget).2 e' (holdPut he')⟩
  · intro id e' hget
    rw [Bucket.get_erase] at hget
    split_ifs at hget with hid
    obtain ⟨hid', hput, hdeleted, hlatest⟩ := h.stored hget
    refine ⟨hid', hextends.subset hput, fun hmem => ?_, fun e'' he'' => hlatest e'' (holdPut he'')⟩
    rcases hold hmem with hmem | heq
    · exact hdeleted hmem
    · obtain rfl := Event.deleted.inj heq
      exact hid hid'.symm
  · intro e' he'
    refine (h.retained (holdPut he')).mono hextends fun hget => ?_
    by_cases hid : e'.id = e.id
    · -- It is the entry that is deleted.
      cases (hid ▸ hget).symm.trans hstored
      rcases hreason with ⟨moment, hsent⟩ | hidle
      · exact .inr (.inr (.inl ⟨moment, hextends.subset hsent⟩))
      · exact .inr (.inr (.inr (hidle.mono hextends)))
    · refine .inl ?_
      rwa [Bucket.get_erase, if_neg hid]

theorem Ledger.idle (h : Ledger s) (kind : GossipKind) (entity : String) :
    Proper i s (s.currentNotificationPayload kind entity).2 := by
  unfold State.currentNotificationPayload
  cases s.around.current with
  | some err => exact h.proper_same
  | none =>
    cases s.catalog.current entity kind with
    | some payload => exact h.proper_same
    | none =>
      exact h.note trivial (by simp) (by simp) (by simp) fun _ => id

/-- An entry may be sent: nothing newer was sent under its key, and it was not deleted. -/
structure Ready (e : OutboxEntry) (s : State) : Prop where
  put : .put e ∈ s.log
  newest : ∀ e' ok moment, .sent e' ok moment ∈ s.log → e'.id = e.id →
    e'.generation ≤ e.generation
  undeleted : ∀ e', .deleted e' ∈ s.log → e'.id = e.id → e'.generation ≠ e.generation

theorem Ledger.ready (h : Ledger s) (hstored : s.entries.get e.id = some e) : Ready e s := by
  obtain ⟨-, hput, hdeleted, hlatest⟩ := h.stored hstored
  refine ⟨hput, fun e' ok moment hsent hid => ?_, fun e' hdeleted' hid heq => ?_⟩
  · rcases hlatest e' (h.record.sent hsent) hid with rfl | hlt
    · exact le_rfl
    · exact hlt.le
  · rcases hlatest e' (h.record.deleted hdeleted') hid with rfl | hlt
    · exact hdeleted hdeleted'
    · exact hlt.ne heq

theorem Ledger.send (h : Ledger s) {purpose : Purpose} (hlock : s.locks e.id = some (i, purpose))
    (hready : Ready e s) : Proper i s (s.deliverOutboxEntry e).2 := by
  refine @proper_of_events i s _ ?_ [.sent e (s.around.send e).isNone s.moment] rfl rfl ?_
  · exact h.append rfl ⟨hready.put, hready.newest, hready.undeleted⟩ (by simp) (by simp) rfl rfl
      le_rfl (by simp) fun _ _ hget => .inl hget
  · rintro event hevent key htouches
    obtain rfl := List.mem_singleton.1 hevent
    exact ⟨purpose, htouches ▸ hlock⟩

theorem Ledger.apply (h : Ledger s) (m : Mutation) : Proper i s (s.apply m).2 := by
  unfold State.apply
  cases s.around.apply with
  | failed err => exact h.proper_same
  | done | torn => exact h.elsewhere rfl rfl rfl rfl rfl h.spawned

end Actions

/-- Thread `i` has the lock of a key. -/
def Held (i : ℕ) (id : String) (s : State) : Prop := ∃ purpose, s.locks id = some (i, purpose)

/-! ## Staging -/

theorem nonEmpty_ne {text entity : String} (h : nonEmpty text = some entity) : entity ≠ "" := by
  unfold nonEmpty at h
  split_ifs at h with hempty
  rwa [← Option.some.inj h]

theorem notificationEntity_ne {kind : GossipKind} {payload : Payload} {entity : String}
    (h : notificationEntityFromPayload kind payload = some entity) : entity ≠ "" := by
  unfold notificationEntityFromPayload at h
  split at h
  · exact nonEmpty_ne h
  · exact nonEmpty_ne h
  · exact nonEmpty_ne h
  · cases h

/-- The attempt that `stageOutbox` makes. -/
def stagedAttempt (since : ℕ) (peerID : String) (kind : GossipKind) (name : String)
    (payload : Payload) (generation : ℕ) : OutboxAttempt :=
  ⟨outboxKey peerID kind name, outboxKey peerID kind name,
    ⟨outboxKey peerID kind name, peerID, kind, name, generation, payload, since⟩⟩

theorem stagedAttempt_canonical {kind : GossipKind} {entity name : String} {payload : Payload}
    (hname : (notificationEntityFromPayload kind payload).getD entity = name) (since : ℕ)
    (peerID : String) (generation : ℕ) :
    (stagedAttempt since peerID kind name payload generation).entry.Canonical := by
  refine ⟨rfl, fun hempty => ?_⟩
  change notificationEntityFromPayload kind payload = none
  rcases hnotification : notificationEntityFromPayload kind payload with _ | value
  · rfl
  rw [hnotification] at hname
  exact absurd (hname.trans hempty) (notificationEntity_ne hnotification)

end Proxyma.Outbox
