import Proxyma.Outbox.Ledger

/-!
# What is staged before it is committed

A mutation stages its payload under the locks of its keys, then changes the catalog, and lets
the locks go.  In between the store holds what is not committed.  It gets out of there in two
ways: the mutation fails and takes its entries back under the same locks, or the node crashes,
and the next flush compares every entry with the catalog before it delivers any.

`Announced` is the invariant.  An entry in the store is `Vouched` for by the catalog of some
moment since its payload was taken, or it is older than the last start, or a mutation holds
the lock of its key.  `Regards` is what a thread can rely on: nobody brings in an entry from
before the last start, and under a lock that it holds, only entries that are vouched for.
-/

namespace Proxyma.Outbox

open Keyed Atomic Atomic.Prog

/-! ## Committed payloads -/

instance (entity : String) (c : Catalog) : DecidablePred (Payload.Reflects entity c)
  | .pipeline action schema =>
    inferInstanceAs (Decidable (c.pipelines.get entity = some schema ∧ action = actionFor schema))
  | .service .add schema => inferInstanceAs (Decidable (c.services.get entity = some schema))
  | .service .remove _ => inferInstanceAs (Decidable (c.services.get entity = none))
  | .vfs file => inferInstanceAs (Decidable (c.files.get entity = some file))

namespace State

variable {s s' : State}

/-- A payload said what was committed about an entity, at some moment between two. -/
def Committed (s : State) (entity : String) (payload : Payload) (since moment : ℕ) : Prop :=
  ∃ m, since ≤ m ∧ m ≤ moment ∧ ∃ c, s.timeline[m]? = some c ∧ payload.Reflects entity c

/-- The payload of an entry was committed at some moment since it was taken. -/
def Vouched (s : State) (e : OutboxEntry) : Prop :=
  s.Committed e.entity e.payload e.since s.moment

instance (s : State) (entity : String) (payload : Payload) (since moment : ℕ) :
    Decidable (s.Committed entity payload since moment) :=
  decidable_of_iff (∃ m < moment + 1, since ≤ m ∧ ∃ c ∈ s.timeline[m]?, payload.Reflects entity c) (by
    constructor
    · rintro ⟨m, hm, hsince, c, hc, hreflects⟩
      exact ⟨m, hsince, Nat.lt_succ_iff.1 hm, c, hc, hreflects⟩
    · rintro ⟨m, hsince, hm, c, hc, hreflects⟩
      exact ⟨m, Nat.lt_succ_iff.2 hm, hsince, c, hc, hreflects⟩)

theorem timeline_moment (s : State) : s.timeline[s.moment]? = some s.catalog := by
  simp [timeline, moment]

theorem timeline_length (s : State) : s.timeline.length = s.moment + 1 := by
  simp [timeline, moment]

theorem moment_mono (h : s.timeline <+: s'.timeline) : s.moment ≤ s'.moment := by
  have hle := h.length_le
  rw [timeline_length, timeline_length] at hle
  omega

theorem committed_now {entity : String} {payload : Payload} {since : ℕ}
    (hsince : since ≤ s.moment) (h : payload.Reflects entity s.catalog) :
    s.Committed entity payload since s.moment :=
  ⟨s.moment, hsince, le_rfl, s.catalog, s.timeline_moment, h⟩

theorem Committed.mono {entity : String} {payload : Payload} {since moment : ℕ}
    (h : s.Committed entity payload since moment) (hs : s.timeline <+: s'.timeline) {moment' : ℕ}
    (hmoment : moment ≤ moment') : s'.Committed entity payload since moment' := by
  obtain ⟨m, hsince, hm, c, hget, hreflects⟩ := h
  obtain ⟨later, hlater⟩ := hs
  refine ⟨m, hsince, hm.trans hmoment, c, ?_, hreflects⟩
  rwa [← hlater, List.getElem?_append_left (List.getElem?_eq_some_iff.1 hget).1]

theorem Vouched.mono {e : OutboxEntry} (h : s.Vouched e) (hs : s.timeline <+: s'.timeline) :
    s'.Vouched e :=
  Committed.mono h hs (moment_mono hs)

end State

/-! ## The discipline -/

/-- What is staged to correct what is in the store. -/
def Purpose.Corrects (purpose : Purpose) : Prop := purpose = .reconciliation ∨ purpose = .rollback

instance (purpose : Purpose) : Decidable purpose.Corrects := inferInstanceAs (Decidable (_ ∨ _))

/-- What may fail, and when.  A notification says what the catalog holds when its payload is
taken; nothing fails while a mutation is rolled back; and what corrects the store does not lose
its reservation. -/
def steady : Condition where
  acts := fun
    | _, .begin purpose kind entity payload, s => purpose = .notification →
        payload.Reflects ((notificationEntityFromPayload kind payload).getD entity) s.catalog
    | _, .currentNotificationPayload purpose _ _, s =>
      purpose = .rollback → s.around.current = none
    | _, .deleteOutboxEntryIfUnchanged purpose _ _, s =>
      purpose = .rollback → s.around.delete = none
    | _, .reserveOutboxGeneration purpose _, s =>
      purpose = .rollback → s.around.reserve = none ∧ s.generation ≠ State.maxUint64
    | _, .putOutboxRawIfCurrentGeneration purpose id generation _, s =>
      (purpose = .rollback → s.around.put = none) ∧
        (purpose.Corrects → s.around.put = none → s.reservations.get id = some generation)
    | _, _, _ => True
  asks := fun
    | .mutate m => m.entity ≠ ""
    | _ => True

instance : ∀ {α : Type} (e : Action α) (s : State), Decidable (steady.acts e s)
  | _, .begin _ _ _ _, _ => inferInstanceAs (Decidable (_ → Payload.Reflects _ _ _))
  | _, .currentNotificationPayload _ _ _, s =>
    inferInstanceAs (Decidable (_ → s.around.current = none))
  | _, .deleteOutboxEntryIfUnchanged _ _ _, s =>
    inferInstanceAs (Decidable (_ → s.around.delete = none))
  | _, .reserveOutboxGeneration _ _, s =>
    inferInstanceAs (Decidable (_ → s.around.reserve = none ∧ s.generation ≠ State.maxUint64))
  | _, .putOutboxRawIfCurrentGeneration _ _ _ _, s =>
    inferInstanceAs (Decidable ((_ → s.around.put = none) ∧ (_ → s.around.put = none → _)))
  | _, .peers, _ | _, .releaseOutboxGeneration _ _, _ | _, .outboxEntryMatches _ _, _
  | _, .listOutboxRaw, _ | _, .deliverOutboxEntry _, _ | _, .apply _, _ | _, .lock _ _, _
  | _, .unlock _, _ | _, .tryLockFlush, _ | _, .unlockFlush, _ | _, .goOwned _ _, _ | _, .done, _
  | _, .wait, _ => .isTrue trivial

instance {α : Type} (e : Action α) (s : State) : Decidable (steady.may e s) :=
  inferInstanceAs (Decidable (_ ∧ _))

/-- An attempt that may be handed over: its entry is from this life of the node or vouched
for. -/
def Deliverable (a : OutboxAttempt) (s : State) : Prop :=
  s.boot < a.entry.generation ∨ s.Vouched a.entry

/-- What holds of the store at all times. -/
structure Announced (s : State) : Prop where
  boot : s.boot ≤ s.generation
  since : ∀ {id e}, s.entries.get id = some e → e.since ≤ s.moment
  named : ∀ {id e}, s.entries.get id = some e → e.entity = "" → s.Vouched e
  vouched : ∀ {id e}, s.entries.get id = some e →
    s.Vouched e ∨ e.generation ≤ s.boot ∨ ∃ i, s.locks id = some (i, .mutation)
  spawned : ∀ p ∈ s.spawned, Deliverable p.1 s
  sent : ∀ {e ok moment}, .sent e ok moment ∈ s.log →
    s.Committed e.entity e.payload e.since moment

/-- What all threads but `i` respect. -/
structure Regards (i : ℕ) (s s' : State) : Prop where
  boot : s'.boot = s.boot
  generation : s.generation ≤ s'.generation
  timeline : s.timeline <+: s'.timeline
  locks : ∀ {id purpose}, s.locks id = some (i, purpose) → s'.locks id = some (i, purpose)
  entries : ∀ {id e}, s'.entries.get id = some e →
    s.entries.get id = some e ∨ s.boot < e.generation ∧ (Held i id s → s'.Vouched e)

theorem Regards.refl (i : ℕ) (s : State) : Regards i s s :=
  ⟨rfl, le_rfl, List.prefix_rfl, id, .inl⟩

theorem Regards.held {i : ℕ} {s s' : State} (h : Regards i s s') {id : String}
    (hheld : Held i id s) : Held i id s' := by
  obtain ⟨purpose, hlock⟩ := hheld
  exact ⟨purpose, h.locks hlock⟩

theorem Regards.deliverable {i : ℕ} {s s' : State} (h : Regards i s s') {a : OutboxAttempt}
    (ha : Deliverable a s) : Deliverable a s' :=
  ha.imp (fun hlt => h.boot ▸ hlt) (·.mono h.timeline)

theorem Regards.trans {i : ℕ} {a b d : State} (hab : Regards i a b) (hbd : Regards i b d) :
    Regards i a d where
  boot := hbd.boot.trans hab.boot
  generation := hab.generation.trans hbd.generation
  timeline := hab.timeline.trans hbd.timeline
  locks := fun h => hbd.locks (hab.locks h)
  entries := by
    intro id e hget
    rcases hbd.entries hget with hget | ⟨hrecent, hvouched⟩
    · exact (hab.entries hget).imp_right fun ⟨hrecent, hvouched⟩ =>
        ⟨hrecent, fun hheld => (hvouched hheld).mono hbd.timeline⟩
    · exact .inr ⟨hab.boot ▸ hrecent, fun hheld => hvouched (hab.held hheld)⟩

/-! ## What actions do -/

/-- Nothing comes into the store, no lock is let go, and nothing is sent. -/
structure Unmoved (s s' : State) : Prop where
  boot : s'.boot = s.boot
  generation : s.generation ≤ s'.generation
  timeline : s.timeline <+: s'.timeline
  locks : ∀ {id holder}, s.locks id = some holder → s'.locks id = some holder
  entries : ∀ {id e}, s'.entries.get id = some e → s.entries.get id = some e
  spawned : s'.spawned = s.spawned
  sent : ∀ {e ok moment}, .sent e ok moment ∈ s'.log → .sent e ok moment ∈ s.log

section Actions

variable {i : ℕ} {s s' : State}

theorem Unmoved.refl (s : State) : Unmoved s s :=
  ⟨rfl, le_rfl, List.prefix_rfl, id, id, rfl, id⟩

theorem Unmoved.regards (h : Unmoved s s') (j : ℕ) : Regards j s s' :=
  ⟨h.boot, h.generation, h.timeline, h.locks, fun hget => .inl (h.entries hget)⟩

theorem Unmoved.announced (h : Unmoved s s') (hs : Announced s) : Announced s' where
  boot := by
    rw [h.boot]
    exact hs.boot.trans h.generation
  since := fun hget => (hs.since (h.entries hget)).trans (State.moment_mono h.timeline)
  named := fun hget hempty => (hs.named (h.entries hget) hempty).mono h.timeline
  vouched := by
    intro id e hget
    rcases hs.vouched (h.entries hget) with hvouched | hold | ⟨i, hlock⟩
    · exact .inl (hvouched.mono h.timeline)
    · exact .inr (.inl (h.boot ▸ hold))
    · exact .inr (.inr ⟨i, h.locks hlock⟩)
  spawned := by
    intro p hp
    rw [h.spawned] at hp
    exact (h.regards 0).deliverable (hs.spawned p hp)
  sent := fun hsent => (hs.sent (h.sent hsent)).mono h.timeline le_rfl

theorem unmoved_reserve (s : State) (i : ℕ) (id : String) :
    Unmoved s (s.reserveOutboxGeneration i id).2 := by
  unfold State.reserveOutboxGeneration
  cases s.around.reserve with
  | some err => exact .refl s
  | none =>
    split_ifs
    · exact .refl s
    · exact ⟨rfl, Nat.le_succ _, List.prefix_rfl, fun h => h, fun h => h, rfl,
        fun h => by simpa using h⟩

theorem unmoved_release (s : State) (id : String) (generation : ℕ) :
    Unmoved s (s.releaseOutboxGeneration id generation).2 := by
  unfold State.releaseOutboxGeneration
  cases s.around.release with
  | some err => exact .refl s
  | none =>
    split_ifs
    · exact ⟨rfl, le_rfl, List.prefix_rfl, fun h => h, fun h => h, rfl, fun h => h⟩
    · exact .refl s

theorem unmoved_delete (s : State) (id : String) (e : OutboxEntry) :
    Unmoved s (s.deleteOutboxEntryIfUnchanged id e).2 := by
  unfold State.deleteOutboxEntryIfUnchanged
  cases s.around.delete with
  | some err => exact .refl s
  | none =>
    split_ifs
    · refine ⟨rfl, le_rfl, List.prefix_rfl, fun h => h, fun hget => ?_, rfl, fun h => by simpa using h⟩
      dsimp only at hget
      rw [Bucket.get_erase] at hget
      split_ifs at hget
      exact hget
    · exact .refl s

theorem unmoved_current (s : State) (kind : GossipKind) (entity : String) :
    Unmoved s (s.currentNotificationPayload kind entity).2 := by
  unfold State.currentNotificationPayload
  cases s.around.current with
  | some err => exact .refl s
  | none =>
    cases s.catalog.current entity kind with
    | some payload => exact .refl s
    | none =>
      exact ⟨rfl, le_rfl, List.prefix_rfl, id, id, rfl,
        fun h => by simpa [State.record] using h⟩

theorem unmoved_setCatalog (s : State) (catalog : Catalog) : Unmoved s (s.setCatalog catalog) :=
  ⟨rfl, le_rfl, List.prefix_append _ _, id, id, rfl, id⟩

theorem unmoved_apply (s : State) (m : Mutation) : Unmoved s (s.apply m).2 := by
  unfold State.apply
  cases s.around.apply with
  | done => exact unmoved_setCatalog s _
  | failed err => exact .refl s
  | torn err => exact unmoved_setCatalog s _

theorem unmoved_lock {purpose : Purpose} {id : String} (hfree : s.locks id = none) :
    Unmoved s { s with locks := Function.update s.locks id (some (i, purpose)) } := by
  refine ⟨rfl, le_rfl, List.prefix_rfl, fun {id' holder} hlock => ?_, fun h => h, rfl, fun h => h⟩
  refine (Function.update_of_ne ?_ _ _).trans hlock
  rintro rfl
  rw [hfree] at hlock
  cases hlock

/-- What may be put: an entry with a new generation, whose payload is vouched for or whose
key a mutation has locked. -/
structure Puttable (i : ℕ) (e : OutboxEntry) (s : State) : Prop where
  recent : s.boot < e.generation
  since : e.since ≤ s.moment
  named : e.entity = "" → s.Vouched e
  vouched : s.Vouched e ∨ s.locks e.id = some (i, .mutation)

/-- The put of a new entry.  Only the mutation that holds the lock sees an entry that is not
vouched for. -/
theorem Announced.put (h : Announced s) {e : OutboxEntry} (he : Puttable i e s) :
    Announced (s.putOutboxRawIfCurrentGeneration e.id e.generation e).2 ∧
      (∀ j, j ≠ i ∨ s.Vouched e →
        Regards j s (s.putOutboxRawIfCurrentGeneration e.id e.generation e).2) := by
  have hnote : ∀ event : Event, (∀ e ok moment, event ≠ .sent e ok moment) →
      Unmoved s (s.record event) := by
    refine fun event hevent => ⟨rfl, le_rfl, List.prefix_rfl, id, id, rfl, ?_⟩
    intro e ok moment hsent
    refine (List.mem_append.1 hsent).resolve_right fun hnew => ?_
    exact hevent e ok moment (List.mem_singleton.1 hnew).symm
  unfold State.putOutboxRawIfCurrentGeneration
  rcases s.around.put with _ | err
  swap
  · exact ⟨(hnote _ (by simp)).announced h, fun j _ => (hnote _ (by simp)).regards j⟩
  split_ifs
  swap
  · exact ⟨(hnote _ (by simp)).announced h, fun j _ => (hnote _ (by simp)).regards j⟩
  have hentries : ∀ {id e'}, (s.entries.put e.id e).get id = some e' →
      s.entries.get id = some e' ∨ id = e.id ∧ e' = e := by
    intro id e' hget
    rw [Bucket.get_put] at hget
    split_ifs at hget with hid
    · exact .inr ⟨hid, (Option.some.inj hget).symm⟩
    · exact .inl hget
  refine ⟨⟨h.boot, ?_, ?_, ?_, h.spawned, fun hsent => h.sent (by simpa using hsent)⟩,
    fun j hj => ⟨rfl, le_rfl, List.prefix_rfl, id, ?_⟩⟩
  · intro id e' hget
    rcases hentries hget with hget | ⟨rfl, rfl⟩
    · exact h.since hget
    · exact he.since
  · intro id e' hget
    rcases hentries hget with hget | ⟨rfl, rfl⟩
    · exact h.named hget
    · exact he.named
  · intro id e' hget
    rcases hentries hget with hget | ⟨rfl, rfl⟩
    · exact h.vouched hget
    · exact he.vouched.imp_right fun hlock => .inr ⟨i, hlock⟩
  · intro id e' hget
    refine (hentries hget).imp_right ?_
    rintro ⟨rfl, rfl⟩
    refine ⟨he.recent, fun ⟨purpose, hheld⟩ => ?_⟩
    rcases hj with hj | hvouched
    · refine he.vouched.resolve_right fun hlock => hj ?_
      rw [hlock] at hheld
      exact (congrArg Prod.fst (Option.some.inj hheld)).symm
    · exact hvouched

/-- A lock is let go when nothing uncommitted is left under its key. -/
theorem Announced.unlock (h : Announced s) {id : String} (hheld : Held i id s)
    (hclean : ∀ e, s.entries.get id = some e → s.Vouched e ∨ e.generation ≤ s.boot) :
    Announced { s with locks := Function.update s.locks id none } ∧
      ∀ j, j ≠ i → Regards j s { s with locks := Function.update s.locks id none } := by
  refine ⟨⟨h.boot, h.since, h.named, ?_, h.spawned, h.sent⟩,
    fun j hj => ⟨rfl, le_rfl, List.prefix_rfl, fun {id' purpose'} hlock => ?_, .inl⟩⟩
  · intro id' e hget
    by_cases hid : id' = id
    · exact (hclean e (hid ▸ hget)).imp_right .inl
    · exact (h.vouched hget).imp_right fun h => h.imp_right fun ⟨i, hlock⟩ =>
        ⟨i, (Function.update_of_ne hid _ _).trans hlock⟩
  · refine (Function.update_of_ne ?_ _ _).trans hlock
    rintro rfl
    obtain ⟨purpose, hheld⟩ := hheld
    rw [hlock] at hheld
    exact hj (congrArg Prod.fst (Option.some.inj hheld))

theorem Announced.spawn (h : Announced s) {a : OutboxAttempt} (ha : Deliverable a s)
    (tracked : Bool) : Announced (exec i (.goOwned a tracked) s).2 ∧
      ∀ j, Regards j s (exec i (.goOwned a tracked) s).2 := by
  refine ⟨⟨h.boot, h.since, h.named, h.vouched, fun p hp => ?_, h.sent⟩,
    fun j => ⟨rfl, le_rfl, List.prefix_rfl, id, .inl⟩⟩
  rcases List.mem_append.1 hp with hold | hnew
  · exact h.spawned p hold
  · obtain rfl := List.mem_singleton.1 hnew
    exact ha

theorem Announced.send (h : Announced s) {e : OutboxEntry} (he : s.Vouched e) :
    Announced (s.deliverOutboxEntry e).2 ∧ ∀ j, Regards j s (s.deliverOutboxEntry e).2 := by
  refine ⟨⟨h.boot, h.since, h.named, h.vouched, h.spawned, ?_⟩,
    fun j => ⟨rfl, le_rfl, List.prefix_rfl, id, .inl⟩⟩
  intro e' ok moment hsent
  rcases List.mem_append.1 hsent with hold | hnew
  · exact h.sent hold
  · cases List.mem_singleton.1 hnew
    exact he

end Actions

/-! ## What threads know -/

/-- What holds of a node at all times, and in steady runs. -/
structure Kept (cond : Condition) (s : State) : Prop where
  ledger : Ledger s
  announced : cond = steady → Announced s

def sharing (cond : Condition) : Sharing State where
  inv := Kept cond
  keeps := fun i s s' => Undisturbed i s s' ∧ (cond = steady → Regards i s s')
  refl := fun i s => ⟨.refl i s, fun _ => .refl i s⟩
  trans := fun _ _ _ _ h h' => ⟨h.1.trans h'.1, fun hcond => (h.2 hcond).trans (h'.2 hcond)⟩

/-- A triple of thread `i` under a condition. -/
abbrev Retains {α : Type} (cond : Condition) (i : ℕ) (pre : State → Prop) (p : Prog Action α)
    (post : α → State → Prop) : Prop :=
  (sharing cond).Triple node cond.may i pre p post

/-- What thread `i` may expect of its own actions as well as of those of the others. -/
structure Follows (cond : Condition) (i : ℕ) (s s' : State) : Prop where
  log : s.log <+: s'.log
  locks : ∀ {id purpose}, s.locks id = some (i, purpose) → s'.locks id = some (i, purpose)
  regards : cond = steady → Regards i s s'

/-- Something that stays true as long as the log only grows, thread `i` keeps its locks, and
in steady runs its interests are regarded. -/
def Lasting (cond : Condition) (i : ℕ) (K : State → Prop) : Prop :=
  ∀ s s', Follows cond i s s' → K s → K s'

/-- What an action of thread `i` may do, other than to lock and to unlock. -/
structure Does (cond : Condition) (i : ℕ) (s s' : State) : Prop where
  proper : Proper i s s'
  announced : cond = steady → Announced s' ∧ ∀ j, Regards j s s'

section Lasting

variable {cond : Condition} {i : ℕ} {K : State → Prop} {s s' : State}

theorem lasting_true : Lasting cond i fun _ => True := fun _ _ _ => id

theorem lasting_lock (id : String) (purpose : Purpose) :
    Lasting cond i fun s => s.locks id = some (i, purpose) :=
  fun _ _ hfollows => hfollows.locks

theorem lasting_steady (hK : ∀ {s s'}, Regards i s s' → K s → K s') :
    Lasting cond i fun s => cond = steady → K s :=
  fun _ _ hfollows h hcond => hK (hfollows.regards hcond) (h hcond)

theorem Lasting.and {K' : State → Prop} (hK : Lasting cond i K) (hK' : Lasting cond i K') :
    Lasting cond i fun s => K s ∧ K' s :=
  fun s s' hfollows h => ⟨hK s s' hfollows h.1, hK' s s' hfollows h.2⟩

theorem Lasting.forall {ι : Type} {K : ι → State → Prop} (hK : ∀ x, Lasting cond i (K x)) :
    Lasting cond i fun s => ∀ x, K x s :=
  fun s s' hfollows h x => hK x s s' hfollows (h x)

theorem Lasting.imp {fact : Prop} (hK : Lasting cond i K) : Lasting cond i fun s => fact → K s :=
  fun s s' hfollows h hfact => hK s s' hfollows (h hfact)

theorem Lasting.stable (hK : Lasting cond i K) : (sharing cond).Stable i K :=
  fun s s' _ _ hkeeps => hK s s' ⟨hkeeps.1.log, hkeeps.1.locks, hkeeps.2⟩

theorem Does.follows (h : Does cond i s s') : Follows cond i s s' :=
  ⟨h.proper.log, fun hlock => h.proper.locks ▸ hlock, fun hcond => (h.announced hcond).2 i⟩

theorem Kept.does (hs : Kept cond s) (hproper : Proper i s s') (hunmoved : Unmoved s s') :
    Does cond i s s' :=
  ⟨hproper, fun hcond => ⟨hunmoved.announced (hs.announced hcond), hunmoved.regards⟩⟩

theorem Kept.same (hs : Kept cond s) : Does cond i s s :=
  hs.does hs.ledger.proper_same (.refl s)

end Lasting

section Threads

variable {cond : Condition} {i : ℕ} {K pre : State → Prop} {α β : Type}
variable {post : α → State → Prop} {id : String} {purpose : Purpose}

/-- An action that is no locking.  What the thread knows for a moment only is used up. -/
theorem act_does {e : Action β} {next : β → Prog Action α} (mid : β → State → Prop)
    (hpre : (sharing cond).Stable i pre) (hK : Lasting cond i K) (hknown : ∀ s, pre s → K s)
    (hact : ∀ s, Kept cond s → pre s → cond.may e s →
      Does cond i s (exec i e s).2 ∧ mid (exec i e s).1 (exec i e s).2)
    (hnext : ∀ b, Retains cond i (fun s => K s ∧ mid b s) (next b) post) :
    Retains cond i pre (.act e next) post := by
  refine Sharing.Triple.act (fun b s => K s ∧ mid b s) hpre (fun s hs h hmay => ?_) hnext
  obtain ⟨hdoes, hmid⟩ := hact s hs h hmay
  exact ⟨⟨hdoes.proper.inv, fun hcond => (hdoes.announced hcond).1⟩,
    fun j hj => ⟨hdoes.proper.others j hj, fun hcond => (hdoes.announced hcond).2 j⟩,
    hK s _ hdoes.follows (hknown s h), hmid⟩

/-- An action that is no locking, in the midst of what the thread knows. -/
theorem act_proper {e : Action β} {next : β → Prog Action α} (mid : β → State → Prop)
    (hK : Lasting cond i K)
    (hact : ∀ s, Kept cond s → K s → cond.may e s →
      Does cond i s (exec i e s).2 ∧ mid (exec i e s).1 (exec i e s).2)
    (hnext : ∀ b, Retains cond i (fun s => K s ∧ mid b s) (next b) post) :
    Retains cond i K (.act e next) post :=
  act_does mid hK.stable hK (fun _ h => h) hact hnext

theorem act_silent {e : Action β} {next : β → Prog Action α} (hK : Lasting cond i K)
    (hact : ∀ s, Kept cond s → K s → Does cond i s (exec i e s).2)
    (hnext : ∀ b, Retains cond i K (next b) post) : Retains cond i K (.act e next) post :=
  act_proper (fun _ _ => True) hK (fun s hs h _ => ⟨hact s hs h, trivial⟩) fun b =>
    (hnext b).given fun _ _ h => h.1

theorem ret_lasting {a : α} (hK : Lasting cond i K) (hpost : ∀ s, K s → post a s) :
    Retains cond i K (.ret a) post :=
  Sharing.Triple.ret hK.stable fun s _ h => hpost s h

theorem ret_done {a : α} : Retains cond i K (.ret a) fun _ _ => True :=
  (ret_lasting lasting_true fun _ h => h).given (fun _ _ _ => trivial)

theorem act_lock_with {next : Unit → Prog Action α} (mid : State → Prop) (hK : Lasting cond i K)
    (hmid : ∀ s, Kept cond s → K s → s.locks id = none →
      mid { s with locks := Function.update s.locks id (some (i, purpose)) })
    (hnext : Retains cond i (fun s => (K s ∧ s.locks id = some (i, purpose)) ∧ mid s) (next ())
      post) :
    Retains cond i K (.act (.lock purpose id) next) post := by
  refine Sharing.Triple.act (fun _ s => (K s ∧ s.locks id = some (i, purpose)) ∧ mid s) hK.stable
    (fun s hs h hmay => ?_) fun _ => hnext
  have hfree : s.locks id = none := hmay.1
  have hunmoved := @unmoved_lock i s purpose id hfree
  have hlog : s.log <+: s.log := List.prefix_rfl
  exact ⟨⟨hs.ledger.congr rfl rfl (fun h => h) rfl hs.ledger.spawned,
      fun hcond => hunmoved.announced (hs.announced hcond)⟩,
    fun j _ => ⟨⟨hlog, hunmoved.locks, fun _ _ hmem _ => hmem⟩, fun _ => hunmoved.regards j⟩,
    ⟨hK s _ ⟨hlog, hunmoved.locks, fun _ => hunmoved.regards i⟩ h, Function.update_self ..⟩,
    hmid s hs h hfree⟩

theorem act_lock {next : Unit → Prog Action α} (hK : Lasting cond i K)
    (hnext : Retains cond i (fun s => K s ∧ s.locks id = some (i, purpose)) (next ()) post) :
    Retains cond i K (.act (.lock purpose id) next) post :=
  act_lock_with (fun _ => True) hK (fun _ _ _ _ => trivial) (hnext.given fun _ _ h => h.1)

/-- Let go of a lock, and of what depends on it, when nothing uncommitted is left under its
key. -/
theorem act_unlock {K' : State → Prop} {next : Unit → Prog Action α} (hK : Lasting cond i K)
    (hheld : ∀ s, K s → Held i id s)
    (hclean : cond = steady → ∀ s, Announced s → K s → ∀ e, s.entries.get id = some e →
      s.Vouched e ∨ e.generation ≤ s.boot)
    (hrest : ∀ s, K s → K' { s with locks := Function.update s.locks id none })
    (hnext : Retains cond i K' (next ()) post) :
    Retains cond i K (.act (.unlock id) next) post := by
  refine Sharing.Triple.act (fun _ s => K' s) hK.stable (fun s hs h _ => ?_) fun _ => hnext
  have hsteady := fun hcond : cond = steady => (hs.announced hcond).unlock (hheld s h)
    (hclean hcond s (hs.announced hcond) h)
  refine ⟨⟨hs.ledger.congr rfl rfl (fun h => h) rfl hs.ledger.spawned,
    fun hcond => (hsteady hcond).1⟩, fun j hj => ⟨⟨List.prefix_rfl, fun {id' purpose'} hlock => ?_,
    fun _ _ hmem _ => hmem⟩, fun hcond => (hsteady hcond).2 j hj⟩, hrest s h⟩
  refine (Function.update_of_ne ?_ _ _).trans hlock
  rintro rfl
  obtain ⟨purpose, hown⟩ := hheld s h
  rw [hlock] at hown
  exact hj (congrArg Prod.fst (Option.some.inj hown))

/-- Under a lock that is no mutation's there is nothing uncommitted. -/
theorem Announced.clean {s : State} (hs : Announced s) (hlock : s.locks id = some (i, purpose))
    (hpurpose : purpose ≠ .mutation) (e : OutboxEntry) (hget : s.entries.get id = some e) :
    s.Vouched e ∨ e.generation ≤ s.boot := by
  refine (hs.vouched hget).imp_right fun h => h.resolve_right ?_
  rintro ⟨j, hj⟩
  rw [hlock] at hj
  exact hpurpose (congrArg Prod.snd (Option.some.inj hj))

/-! ## Staging -/

/-- Every entry under a key is from this life of the node and vouched for. -/
def Cleared (id : String) (s : State) : Prop :=
  ∀ e, s.entries.get id = some e → s.boot < e.generation ∧ s.Vouched e

theorem Regards.cleared {s s' : State} (h : Regards i s s')
    (hs : Held i id s ∧ Cleared id s) : Held i id s' ∧ Cleared id s' := by
  refine ⟨h.held hs.1, fun e hget => ?_⟩
  rw [h.boot]
  rcases h.entries hget with hget | ⟨hrecent, hvouched⟩
  · exact ⟨(hs.2 e hget).1, (hs.2 e hget).2.mono h.timeline⟩
  · exact ⟨hrecent, hvouched hs.1⟩

/-- The generation that `ReserveOutboxGeneration` gives is new. -/
theorem reserved_recent {s : State} (hs : Announced s) {generation : ℕ}
    (h : (s.reserveOutboxGeneration i id).1 = .ok generation) :
    (s.reserveOutboxGeneration i id).2.boot < generation := by
  unfold State.reserveOutboxGeneration at h ⊢
  cases hreserve : s.around.reserve with
  | some err => simp [hreserve] at h
  | none =>
    simp only [hreserve] at h ⊢
    split_ifs at h ⊢
    obtain rfl := Except.ok.inj h
    exact Nat.lt_succ_of_le hs.boot

/-- What may be staged: a payload that was committed, or one of a mutation that holds the lock
of the key. -/
def Warranted (i : ℕ) (a : OutboxAttempt) (s : State) : Prop :=
  s.Vouched a.entry ∨
    a.entry.since ≤ s.moment ∧ a.entry.entity ≠ "" ∧ s.locks a.entry.id = some (i, .mutation)

theorem Warranted.puttable {s : State} {a : OutboxAttempt} (h : Warranted i a s)
    (hrecent : s.boot < a.entry.generation) : Puttable i a.entry s := by
  rcases h with hvouched | ⟨hsince, hentity, hlock⟩
  · obtain ⟨m, hsince, hm, -⟩ := id hvouched
    exact ⟨hrecent, hsince.trans hm, fun _ => hvouched, .inl hvouched⟩
  · exact ⟨hrecent, hsince, fun hempty => absurd hempty hentity, .inr hlock⟩

section Staging

variable {since : ℕ} {peerID entity name : String} {kind : GossipKind} {payload : Payload}

/-- `stageOutbox`, when what is known after the put follows from what is known before it.  The
reservation of a rollback does not fail. -/
theorem stageOutbox_triple {Q : OutboxAttempt → Except GoError Bool → State → Prop}
    (hK : Lasting cond i K) (hQ : ∀ a result, Lasting cond i (Q a result))
    (hname : (notificationEntityFromPayload kind payload).getD entity = name)
    (hwarranted : cond = steady → ∀ s, K s →
      ∀ generation, Warranted i (stagedAttempt since peerID kind name payload generation) s)
    (hput : ∀ generation s s' result,
      let a := stagedAttempt since peerID kind name payload generation
      K s → (cond = steady → s.boot < generation) →
      cond.may (.putOutboxRawIfCurrentGeneration purpose a.entry.id generation a.entry) s →
      s.putOutboxRawIfCurrentGeneration a.entry.id generation a.entry = (result, s') →
      Proper i s s' → ((cond = steady → s.Vouched a.entry) → Follows cond i s s') →
      Q a result s') :
    Retains cond i K (stageOutbox purpose since peerID kind entity payload) fun result s =>
      (K s ∧ (∃ err, result = .error err) ∧ (cond = steady → purpose ≠ .rollback)) ∨
      ∃ generation result', Q (stagedAttempt since peerID kind name payload generation) result' s ∧
        result = result'.map fun applied =>
          (stagedAttempt since peerID kind name payload generation, applied) := by
  unfold stageOutbox
  rw [hname]
  refine act_proper (fun result s => (∀ err, result = .error err →
    cond = steady → purpose ≠ .rollback) ∧ ∀ generation, result = .ok generation →
      cond = steady → s.boot < generation) hK (fun s hs h hmay => ⟨?_, ?_, ?_⟩) fun result => ?_
  · exact hs.does (hs.ledger.reserve _) (unmoved_reserve ..)
  · rintro err herr rfl rfl
    obtain ⟨hreserve, hleft⟩ : s.around.reserve = none ∧ s.generation ≠ State.maxUint64 :=
      hmay.2 rfl
    change (s.reserveOutboxGeneration i _).1 = _ at herr
    simp [State.reserveOutboxGeneration, hreserve, hleft] at herr
  · exact fun generation hok hcond => reserved_recent (hs.announced hcond) hok
  cases result with
  | error err =>
    refine Sharing.Triple.given (Sharing.Triple.of_pure fun hrollback => ret_lasting hK ?_)
      fun s _ h => ⟨h.2.1 err rfl, h.1⟩
    exact fun s h => .inl ⟨h, ⟨err, rfl⟩, hrollback⟩
  | ok generation =>
    set a := stagedAttempt since peerID kind name payload generation
    have hK₁ : Lasting cond i fun s => K s ∧ (cond = steady → s.boot < generation) :=
      hK.and (lasting_steady fun hregards hlt => hregards.boot.trans_lt hlt)
    refine Sharing.Triple.given (Sharing.Triple.act (fun result s => Q a result s) hK₁.stable
      (fun s hs h hmay => ?_) fun result => ?_) fun s _ h => ⟨h.1, h.2.2 generation rfl⟩
    · have hproper : Proper i s (s.putOutboxRawIfCurrentGeneration a.entry.id generation a.entry).2 :=
        hs.ledger.putEntry (stagedAttempt_canonical hname since peerID generation)
      have hregards := fun hcond => (hs.announced hcond).put
        ((hwarranted hcond s h.1 generation).puttable (h.2 hcond))
      refine ⟨⟨hproper.inv, fun hcond => (hregards hcond).1⟩, fun j hj => ⟨hproper.others j hj,
        fun hcond => (hregards hcond).2 j (.inl hj)⟩, hput generation s _ _ h.1 h.2 hmay rfl hproper
        fun hvouched => ⟨hproper.log, fun hlock => hproper.locks ▸ hlock, fun hcond => ?_⟩⟩
      exact (hregards hcond).2 i (.inr (hvouched hcond))
    refine act_silent (hQ a result)
      (fun s hs _ => hs.does (hs.ledger.release _ _) (unmoved_release ..)) fun _ => ?_
    cases result with
    | error _ | ok _ => exact ret_lasting (hQ a _) fun s h => .inr ⟨generation, _, h, rfl⟩

/-- The put of a reconciliation leaves nothing else under the key. -/
theorem cleared_of_put {s s' : State} {e : OutboxEntry} (hrecent : s.boot < e.generation)
    (hvouched : s.Vouched e)
    (hcurrent : s.around.put = none → s.reservations.get e.id = some e.generation) {applied : Bool}
    (h : s.putOutboxRawIfCurrentGeneration e.id e.generation e = (.ok applied, s')) :
    Cleared e.id s' := by
  unfold State.putOutboxRawIfCurrentGeneration at h
  cases hput : s.around.put with
  | some err => simp [hput] at h
  | none =>
    simp only [hput, if_pos (hcurrent hput), Prod.mk.injEq] at h
    obtain ⟨-, rfl⟩ := h
    intro e' hget
    dsimp only at hget
    rw [Bucket.get_put, if_pos rfl] at hget
    cases hget
    exact ⟨hrecent, hvouched⟩

/-- What is known of a payload that was vouched for, once it is staged. -/
structure StagedVouched (cond : Condition) (i : ℕ) (purpose : Purpose) (key : String)
    (a : OutboxAttempt) (result : Except GoError Bool) (s : State) : Prop where
  deliverable : cond = steady → Deliverable a s
  cleared : cond = steady → purpose.Corrects → ∀ applied, result = .ok applied →
    Held i key s ∧ Cleared key s
  done : cond = steady → purpose = .rollback → ∃ applied, result = .ok applied

theorem stage_vouched (hK : Lasting cond i K)
    (hname : (notificationEntityFromPayload kind payload).getD entity = name)
    (hcommitted : cond = steady → ∀ s, K s → s.Committed name payload since s.moment)
    (hheld : purpose.Corrects → ∀ s, K s → Held i (outboxKey peerID kind name) s) :
    Retains cond i K (stageOutbox purpose since peerID kind entity payload)
      fun result s => K s ∧ (∀ a applied, result = .ok (a, applied) →
          a.Fits ∧ (cond = steady → Deliverable a s)) ∧
        (cond = steady → purpose.Corrects → ∀ staged, result = .ok staged →
          Cleared (outboxKey peerID kind name) s) ∧
        (cond = steady → purpose = .rollback → ∃ staged, result = .ok staged) := by
  set key := outboxKey peerID kind name
  refine (stageOutbox_triple (Q := fun a result s => K s ∧
    StagedVouched cond i purpose key a result s) hK (fun a result => hK.and ?_) hname
    (fun hcond s h generation => .inl (hcommitted hcond s h)) ?_).weaken (fun _ _ h => h) ?_
  · rintro s s' hfollows ⟨hdeliverable, hcleared, hdone⟩
    exact ⟨fun hcond => (hfollows.regards hcond).deliverable (hdeliverable hcond),
      fun hcond hcorrects applied happlied =>
        (hfollows.regards hcond).cleared (hcleared hcond hcorrects applied happlied), hdone⟩
  · intro generation s s' result a h hrecent hmay hput hproper hfollows
    have hown := hfollows fun hcond => hcommitted hcond s h
    refine ⟨hK s s' hown h, fun hcond => .inl ?_, ?_, ?_⟩
    · rw [(hown.regards hcond).boot]
      exact hrecent hcond
    · rintro rfl hcorrects applied rfl
      exact ⟨(hown.regards rfl).held (hheld hcorrects s h),
        cleared_of_put (e := a.entry) (hrecent rfl) (hcommitted rfl s h) (hmay.2.2 hcorrects) hput⟩
    · rintro rfl rfl
      have hfine : s.around.put = none := hmay.2.1 rfl
      have hcurrent : s.reservations.get key = some generation := hmay.2.2 (.inr rfl) hfine
      refine ⟨true, ?_⟩
      change s.putOutboxRawIfCurrentGeneration key generation a.entry = _ at hput
      simp only [State.putOutboxRawIfCurrentGeneration, hfine, if_pos hcurrent,
        Prod.mk.injEq] at hput
      exact hput.1.symm
  · rintro result s - (⟨h, ⟨err, rfl⟩, hrollback⟩ | ⟨generation, result', ⟨h, hstaged⟩, rfl⟩)
    · exact ⟨h, by simp, by simp, fun hcond hpurpose => absurd hpurpose (hrollback hcond)⟩
    cases result' with
    | error err =>
      refine ⟨h, by simp [Except.map], by simp [Except.map], fun hcond hpurpose => ?_⟩
      obtain ⟨applied, happlied⟩ := hstaged.done hcond hpurpose
      cases happlied
    | ok applied =>
      refine ⟨h, fun a applied' heq => ?_, fun hcond hcorrects _ _ =>
        (hstaged.cleared hcond hcorrects applied rfl).2, fun _ _ => ⟨_, rfl⟩⟩
      cases heq
      exact ⟨⟨rfl, rfl⟩, hstaged.deliverable⟩

end Staging

end Threads

end Proxyma.Outbox
