import Proxyma.Outbox.Engine

/-!
# A staging that gives way to a newer one

`stageOutbox` reserves a generation and puts its entry in a later transaction, if the
reservation is still there.  A newer call on the same key takes the reservation away.  The
older call then puts nothing and returns without an error; but the newer one may not have put
its entry yet, and it may never do so.

A call is `Pending` from its reservation to its put.  Two conditions on the puts (`orderly`)
make up for that: no call puts while a newer reservation of its key is outstanding, and no put
that has the reservation fails while an older call is pending.  Then a pending call either has
the reservation of its key or a newer one has it, or something newer was put (`Lines`).
-/

namespace Proxyma.Outbox

open Keyed Atomic Atomic.Prog

namespace Event

/-- The event is the reservation of a generation for a key. -/
def Reserves (id : String) (generation : ℕ) : Event → Prop
  | .reserved _ id' generation' => id' = id ∧ generation' = generation
  | _ => False

/-- The event is the put of a generation, in whatever way it ends. -/
def Tries (id : String) (generation : ℕ) : Event → Prop
  | .put e => e.id = id ∧ e.generation = generation
  | .abandoned id' generation' => id' = id ∧ generation' = generation
  | .superseded id' generation' => id' = id ∧ generation' = generation
  | _ => False

instance (id : String) (generation : ℕ) : DecidablePred (Reserves id generation)
  | .reserved _ _ _ => inferInstanceAs (Decidable (_ ∧ _))
  | .put _ | .abandoned _ _ | .superseded _ _ | .idle _ _ | .sent _ _ _ | .deleted _ =>
    .isFalse fun h => h

instance (id : String) (generation : ℕ) : DecidablePred (Tries id generation)
  | .put _ | .abandoned _ _ | .superseded _ _ => inferInstanceAs (Decidable (_ ∧ _))
  | .reserved _ _ _ | .idle _ _ | .sent _ _ _ | .deleted _ => .isFalse fun h => h

theorem Reserves.eq {id : String} {generation : ℕ} {event : Event}
    (h : event.Reserves id generation) : ∃ owner, event = .reserved owner id generation := by
  cases event with
  | reserved owner id' generation' =>
    obtain ⟨rfl, rfl⟩ := h
    exact ⟨owner, rfl⟩
  | _ => exact h.elim

theorem Tries.unique {id id' : String} {generation generation' : ℕ} {event : Event}
    (h : event.Tries id generation) (h' : event.Tries id' generation') :
    id = id' ∧ generation = generation' := by
  cases event with
  | put _ | abandoned _ _ | superseded _ _ => exact ⟨h.1.symm.trans h'.1, h.2.symm.trans h'.2⟩
  | _ => exact h.elim

end Event

namespace State

/-- The put of a generation was tried. -/
def Tried (s : State) (id : String) (generation : ℕ) : Prop :=
  ∃ event ∈ s.log, event.Tries id generation

/-- A call has reserved a generation since the last start, and is still to put. -/
def Pending (s : State) (id : String) (generation : ℕ) : Prop :=
  s.boot < generation ∧ (∃ event ∈ s.log, event.Reserves id generation) ∧ ¬ s.Tried id generation

/-- Something newer was put under a key. -/
def Newer (s : State) (id : String) (generation : ℕ) : Prop :=
  ∃ e, .put e ∈ s.log ∧ e.id = id ∧ generation < e.generation

/-- A put that fails either has no reservation or leaves no older call behind; a put that has
lost its reservation finds none. -/
def PutsOrderly (s : State) (id : String) (generation : ℕ) : Prop :=
  match s.around.put with
  | some _ => s.reservations.get id = some generation →
      ∀ older < generation, ¬ s.Pending id older
  | none => s.reservations.get id = some generation ∨ s.reservations.get id = none

instance (s : State) (id : String) (generation : ℕ) : Decidable (s.Tried id generation) :=
  inferInstanceAs (Decidable (∃ event ∈ s.log, event.Tries id generation))

instance (s : State) (id : String) (generation : ℕ) : Decidable (s.Pending id generation) :=
  inferInstanceAs (Decidable (_ ∧ _))

instance (s : State) (id : String) (generation : ℕ) : Decidable (s.PutsOrderly id generation) :=
  match h : s.around.put with
  | some _ => decidable_of_iff
      (s.reservations.get id = some generation → ∀ older < generation, ¬ s.Pending id older)
      (by simp only [PutsOrderly, h])
  | none => decidable_of_iff
      (s.reservations.get id = some generation ∨ s.reservations.get id = none)
      (by simp only [PutsOrderly, h])

end State

/-! ## Calls of `stageOutbox` -/

/-- Only `stageOutbox` is called. -/
def Request.Stages : Request → Prop
  | .enqueue _ _ _ _ => True
  | _ => False

/-- Calls of `stageOutbox`, whatever fails. -/
def stagings : Condition := ⟨fun _ _ _ => True, Request.Stages⟩

/-- Calls of `stageOutbox` whose puts are orderly. -/
def orderly : Condition where
  acts := fun
    | _, .putOutboxRawIfCurrentGeneration _ id generation _, s => s.PutsOrderly id generation
    | _, _, _ => True
  asks := Request.Stages

instance {α : Type} (e : Action α) (s : State) : Decidable (stagings.may e s) :=
  inferInstanceAs (Decidable (enabled e s ∧ True))

instance : ∀ {α : Type} (e : Action α) (s : State), Decidable (orderly.acts e s)
  | _, .putOutboxRawIfCurrentGeneration _ id generation _, s =>
    inferInstanceAs (Decidable (s.PutsOrderly id generation))
  | _, .begin _ _ _ _, _ | _, .peers, _ | _, .reserveOutboxGeneration _ _, _
  | _, .releaseOutboxGeneration _ _, _ | _, .deleteOutboxEntryIfUnchanged _ _ _, _
  | _, .outboxEntryMatches _ _, _ | _, .listOutboxRaw, _ | _, .currentNotificationPayload _ _ _, _
  | _, .deliverOutboxEntry _, _ | _, .apply _, _ | _, .lock _ _, _ | _, .unlock _, _
  | _, .tryLockFlush, _ | _, .unlockFlush, _ | _, .goOwned _ _, _ | _, .done, _ | _, .wait, _ =>
    .isTrue trivial

instance {α : Type} (e : Action α) (s : State) : Decidable (orderly.may e s) :=
  inferInstanceAs (Decidable (_ ∧ _))

/-! ## Pending calls -/

/-- What holds at all times. -/
structure Lines (s : State) : Prop where
  boot : s.boot ≤ s.generation
  counted : ∀ {owner id generation}, .reserved owner id generation ∈ s.log →
    generation ≤ s.generation
  tried : ∀ {id generation}, s.Tried id generation → generation ≤ s.generation
  own : ∀ {owner id owner' id' generation}, .reserved owner id generation ∈ s.log →
    .reserved owner' id' generation ∈ s.log → owner = owner'
  pending : ∀ {id generation}, s.Pending id generation →
    (∃ newest, generation ≤ newest ∧ s.reservations.get id = some newest) ∨ s.Newer id generation
  superseded : ∀ {id generation}, .superseded id generation ∈ s.log → s.Newer id generation
  spawned : s.spawned = []

/-- What all threads but `i` leave alone: they do not put for it, and they bring up no
generation that is not new. -/
structure Aside (i : ℕ) (s s' : State) : Prop where
  boot : s'.boot = s.boot
  generation : s.generation ≤ s'.generation
  log : s.log <+: s'.log
  own : ∀ {id generation}, .reserved i id generation ∈ s.log → s'.Tried id generation →
    s.Tried id generation
  pending : ∀ {id generation}, generation ≤ s.generation → s'.Pending id generation →
    s.Pending id generation
  reservations : ∀ {id generation}, generation ≤ s.generation →
    s'.reservations.get id = some generation → s.reservations.get id = some generation

theorem Aside.refl (i : ℕ) (s : State) : Aside i s s :=
  ⟨rfl, le_rfl, List.prefix_rfl, fun _ h => h, fun _ h => h, fun _ h => h⟩

theorem Aside.trans {i : ℕ} {a b d : State} (hab : Aside i a b) (hbd : Aside i b d) :
    Aside i a d where
  boot := hbd.boot.trans hab.boot
  generation := hab.generation.trans hbd.generation
  log := hab.log.trans hbd.log
  own := fun hreserved htried => hab.own hreserved (hbd.own (hab.log.subset hreserved) htried)
  pending := fun hle h => hab.pending hle (hbd.pending (hle.trans hab.generation) h)
  reservations := fun hle h => hab.reservations hle (hbd.reservations (hle.trans hab.generation) h)

def lines : Sharing State where
  inv := Lines
  keeps := Aside
  refl := Aside.refl
  trans := fun _ _ _ _ => Aside.trans

section Events

variable {i : ℕ} {s s' : State} {id : String} {generation : ℕ}

theorem State.Newer.mono (h : s.Newer id generation) (hlog : s.log <+: s'.log) :
    s'.Newer id generation := by
  obtain ⟨e, hput, hid, hlt⟩ := h
  exact ⟨e, hlog.subset hput, hid, hlt⟩

theorem State.Tried.mono (h : s.Tried id generation) (hlog : s.log <+: s'.log) :
    s'.Tried id generation := by
  obtain ⟨event, hevent, htries⟩ := h
  exact ⟨event, hlog.subset hevent, htries⟩

/-- A pending call was pending before, unless it has just reserved. -/
theorem State.Pending.before {events : List Event} (hboot : s'.boot = s.boot)
    (hlog : s'.log = s.log ++ events) (h : s'.Pending id generation) :
    s.Pending id generation ∨ ∃ owner, .reserved owner id generation ∈ events := by
  obtain ⟨hrecent, ⟨event, hevent, hreserves⟩, huntried⟩ := h
  rw [hlog] at hevent
  rcases List.mem_append.1 hevent with hold | hnew
  · refine .inl ⟨hboot ▸ hrecent, ⟨event, hold, hreserves⟩, fun htried => huntried ?_⟩
    exact htried.mono (hlog ▸ List.prefix_append _ _)
  · obtain ⟨owner, rfl⟩ := hreserves.eq
    exact .inr ⟨owner, hnew⟩

end Events

/-! ## What the transactions do -/

/-- What an action of thread `i` has to do for the others. -/
structure Fair (i : ℕ) (s s' : State) : Prop where
  inv : Lines s'
  others : ∀ j, j ≠ i → Aside j s s'

section Transactions

variable {i : ℕ} {s s' : State}

theorem Lines.fair_same (h : Lines s) : Fair i s s := ⟨h, fun j _ => Aside.refl j s⟩

/-- An action is fair if it reserves new generations only, and puts only what it has
reserved. -/
theorem Lines.fair (h : Lines s) {events : List Event} (hboot : s'.boot = s.boot)
    (hgeneration : s.generation ≤ s'.generation) (hspawned : s'.spawned = s.spawned)
    (hlog : s'.log = s.log ++ events)
    (hreserved : ∀ {owner id generation}, .reserved owner id generation ∈ events →
      owner = i ∧ s.generation < generation ∧ generation ≤ s'.generation)
    (htries : ∀ {event id generation}, event ∈ events → event.Tries id generation →
      .reserved i id generation ∈ s.log)
    (hsuperseded : ∀ {id generation}, .superseded id generation ∈ events → s'.Newer id generation)
    (hreservations : ∀ {id generation}, generation ≤ s.generation →
      s'.reservations.get id = some generation → s.reservations.get id = some generation)
    (hpending : ∀ {id generation}, s'.Pending id generation →
      (∃ newest, generation ≤ newest ∧ s'.reservations.get id = some newest) ∨
        s'.Newer id generation) : Fair i s s' := by
  have hextends : s.log <+: s'.log := hlog ▸ List.prefix_append _ _
  have hmem : ∀ {event}, event ∈ s'.log → event ∈ s.log ∨ event ∈ events := by
    intro event hevent
    rw [hlog] at hevent
    exact List.mem_append.1 hevent
  refine ⟨⟨hboot ▸ h.boot.trans hgeneration, ?_, ?_, ?_, hpending, ?_, hspawned.trans h.spawned⟩,
    fun j hj => ⟨hboot, hgeneration, hextends, ?_, ?_, hreservations⟩⟩
  · intro owner id generation hevent
    rcases hmem hevent with hold | hnew
    · exact (h.counted hold).trans hgeneration
    · exact (hreserved hnew).2.2
  · rintro id generation ⟨event, hevent, htried⟩
    rcases hmem hevent with hold | hnew
    · exact (h.tried ⟨event, hold, htried⟩).trans hgeneration
    · exact (h.counted (htries hnew htried)).trans hgeneration
  · intro owner id owner' id' generation hevent hevent'
    rcases hmem hevent with hold | hnew <;> rcases hmem hevent' with hold' | hnew'
    · exact h.own hold hold'
    · exact absurd (h.counted hold) (hreserved hnew').2.1.not_ge
    · exact absurd (h.counted hold') (hreserved hnew).2.1.not_ge
    · exact (hreserved hnew).1.trans (hreserved hnew').1.symm
  · intro id generation hevent
    rcases hmem hevent with hold | hnew
    · exact (h.superseded hold).mono hextends
    · exact hsuperseded hnew
  · rintro id generation hown ⟨event, hevent, htried⟩
    rcases hmem hevent with hold | hnew
    · exact ⟨event, hold, htried⟩
    · exact absurd (h.own hown (htries hnew htried)) hj
  · intro id generation hle hpending'
    refine (hpending'.before hboot hlog).resolve_right ?_
    rintro ⟨owner, hnew⟩
    exact (hreserved hnew).2.1.not_ge hle

theorem Lines.pending_le (h : Lines s) {id : String} {generation : ℕ}
    (hpending : s.Pending id generation) : generation ≤ s.generation := by
  obtain ⟨-, ⟨event, hevent, hreserves⟩, -⟩ := hpending
  obtain ⟨owner, rfl⟩ := hreserves.eq
  exact h.counted hevent

theorem Lines.reserve (h : Lines s) (id : String) :
    Fair i s (s.reserveOutboxGeneration i id).2 := by
  unfold State.reserveOutboxGeneration
  cases s.around.reserve with
  | some err => exact h.fair_same
  | none =>
    split_ifs
    · exact h.fair_same
    set s' : State := { s with
      generation := s.generation + 1
      reservations := s.reservations.put id (s.generation + 1)
      log := s.log ++ [.reserved i id (s.generation + 1)] } with hs'
    refine @Lines.fair i s s' h _ rfl (Nat.le_succ _) rfl rfl ?_ ?_ ?_ ?_ ?_
    · intro owner id' generation hmem
      cases List.mem_singleton.1 hmem
      exact ⟨rfl, Nat.lt_succ_self _, le_rfl⟩
    · intro event id' generation hmem htries
      obtain rfl := List.mem_singleton.1 hmem
      exact htries.elim
    · intro id' generation hmem
      cases List.mem_singleton.1 hmem
    · intro id' generation hle hget
      rw [hs'] at hget
      dsimp only at hget
      rw [Bucket.get_put] at hget
      split_ifs at hget
      · cases hget
        exact absurd hle (Nat.not_succ_le_self _)
      · exact hget
    · intro id' generation hpending
      rcases @State.Pending.before s s' _ _ _ rfl rfl hpending with hold | ⟨owner, hnew⟩
      · by_cases hid : id' = id
        · refine .inl ⟨_, (h.pending_le hold).trans (Nat.le_succ _), ?_⟩
          exact (Bucket.get_put ..).trans (if_pos hid)
        · refine (h.pending hold).imp ?_ (·.mono (List.prefix_append _ _))
          rintro ⟨newest, hle, hget⟩
          exact ⟨newest, hle, (Bucket.get_put ..).trans ((if_neg hid).trans hget)⟩
      · cases List.mem_singleton.1 hnew
        exact .inl ⟨_, le_rfl, (Bucket.get_put ..).trans (if_pos rfl)⟩

theorem Lines.tryPut (h : Lines s) {id : String} {generation : ℕ} (event : Event)
    (hreserved : .reserved i id generation ∈ s.log) (htries : event.Tries id generation)
    (hboot : s'.boot = s.boot) (hgeneration : s'.generation = s.generation)
    (hspawned : s'.spawned = s.spawned) (hlog : s'.log = s.log ++ [event])
    (hreservations : ∀ {id generation}, s'.reservations.get id = some generation →
      s.reservations.get id = some generation)
    (hpending : ∀ {id generation}, s'.Pending id generation → s.Pending id generation →
      (∃ newest, generation ≤ newest ∧ s'.reservations.get id = some newest) ∨
        s'.Newer id generation)
    (hsuperseded : event = .superseded id generation → s'.Newer id generation) : Fair i s s' := by
  have hnot : ∀ {owner id generation}, Event.reserved owner id generation ∉ [event] := by
    intro owner id generation hmem
    obtain rfl := List.mem_singleton.1 hmem
    exact htries
  refine h.fair hboot hgeneration.ge hspawned hlog (fun hmem => absurd hmem hnot) ?_ ?_
    (fun _ => hreservations) ?_
  · intro event' id' generation' hmem htries'
    obtain rfl := List.mem_singleton.1 hmem
    obtain ⟨rfl, rfl⟩ := htries.unique htries'
    exact hreserved
  · intro id' generation' hmem
    obtain rfl := List.mem_singleton.1 hmem
    obtain ⟨rfl, rfl⟩ := htries
    exact hsuperseded rfl
  · intro id' generation' hpending'
    refine hpending hpending' ((hpending'.before hboot hlog).resolve_right ?_)
    rintro ⟨owner, hnew⟩
    exact hnot hnew

/-- What a call leaves to its release: either nobody else waits for its reservation, or it
has none. -/
def Leaves (id : String) (generation : ℕ) (s : State) : Prop :=
  s.Tried id generation ∧
    ((∀ older < generation, ¬ s.Pending id older) ∨ s.reservations.get id ≠ some generation)

theorem Lines.put (h : Lines s) {e : OutboxEntry}
    (hreserved : .reserved i e.id e.generation ∈ s.log) (hpending : s.Pending e.id e.generation)
    (horderly : s.PutsOrderly e.id e.generation) :
    let out := s.putOutboxRawIfCurrentGeneration e.id e.generation e
    Fair i s out.2 ∧ Leaves e.id e.generation out.2 ∧
      (out.1 = .ok false → out.2.Newer e.id e.generation) := by
  unfold State.PutsOrderly at horderly
  unfold State.putOutboxRawIfCurrentGeneration
  cases hput : s.around.put with
  | some err =>
    simp only [hput] at horderly
    have hextends : s.log <+: (s.record (.abandoned e.id e.generation)).log :=
      List.prefix_append _ _
    refine ⟨?_, ⟨⟨_, List.mem_append_right _ (List.mem_singleton_self _), rfl, rfl⟩, ?_⟩, by simp⟩
    · exact h.tryPut (.abandoned e.id e.generation) hreserved ⟨rfl, rfl⟩ rfl rfl rfl rfl id
        (fun _ hold => (h.pending hold).imp_right (·.mono hextends)) (by simp)
    by_cases hget : s.reservations.get e.id = some e.generation
    · refine .inl fun older hlt hpending' => horderly hget older hlt ?_
      refine (@State.Pending.before s (s.record (.abandoned e.id e.generation)) _ _
        [.abandoned e.id e.generation] rfl rfl hpending').resolve_right ?_
      simp
    · exact .inr hget
  | none =>
    simp only [hput] at horderly
    split_ifs with hget
    · -- What was pending is older, and gives way to the entry.
      refine ⟨?_, ⟨⟨_, List.mem_append_right _ (List.mem_singleton_self _), rfl, rfl⟩, ?_⟩, by simp⟩
      · refine h.tryPut (.put e) hreserved ⟨rfl, rfl⟩ rfl rfl rfl rfl ?_ ?_ (by simp)
        · intro id generation hget'
          dsimp only at hget'
          rw [Bucket.get_erase] at hget'
          split_ifs at hget'
          exact hget'
        · intro id generation huntried hold
          by_cases hid : id = e.id
          · subst hid
            have hne : generation ≠ e.generation := by
              rintro rfl
              exact huntried.2.2 ⟨_, List.mem_append_right _ (List.mem_singleton_self _), rfl, rfl⟩
            rcases h.pending hold with ⟨newest, hle, hnewest⟩ | hnewer
            · cases hget.symm.trans hnewest
              exact .inr ⟨e, by simp, rfl, lt_of_le_of_ne hle hne⟩
            · exact .inr (hnewer.mono (List.prefix_append _ _))
          · refine (h.pending hold).imp ?_ (·.mono (List.prefix_append _ _))
            rintro ⟨newest, hle, hnewest⟩
            exact ⟨newest, hle, (Bucket.get_erase ..).trans ((if_neg hid).trans hnewest)⟩
      · refine .inr ?_
        dsimp only
        rw [Bucket.get_erase, if_pos rfl]
        simp
    · have hnewer : s.Newer e.id e.generation := by
        refine (h.pending hpending).resolve_left ?_
        rintro ⟨newest, -, hnewest⟩
        simp [horderly.resolve_left hget] at hnewest
      have hextends : s.log <+: (s.record (.superseded e.id e.generation)).log :=
        List.prefix_append _ _
      refine ⟨?_, ⟨⟨_, List.mem_append_right _ (List.mem_singleton_self _), rfl, rfl⟩, .inr hget⟩,
        fun _ => hnewer.mono hextends⟩
      exact h.tryPut (.superseded e.id e.generation) hreserved ⟨rfl, rfl⟩ rfl rfl rfl rfl id
        (fun _ hold => (h.pending hold).imp_right (·.mono hextends)) fun _ => hnewer.mono hextends

theorem Lines.release (h : Lines s) {id : String} {generation : ℕ}
    (hleaves : Leaves id generation s) :
    Fair i s (s.releaseOutboxGeneration id generation).2 := by
  unfold State.releaseOutboxGeneration
  rcases s.around.release with _ | err
  swap
  · exact h.fair_same
  split_ifs with hget
  swap
  · exact h.fair_same
  refine @Lines.fair i s { s with reservations := s.reservations.erase id } h [] rfl le_rfl rfl
    (List.append_nil _).symm (by simp) (by simp) (by simp) ?_ ?_
  · intro id' generation' _ hget'
    dsimp only at hget'
    rw [Bucket.get_erase] at hget'
    split_ifs at hget'
    exact hget'
  · intro id' generation' hpending
    refine (h.pending hpending).imp_left ?_
    rintro ⟨newest, hle, hnewest⟩
    have hid : id' ≠ id := by
      rintro rfl
      cases hget.symm.trans hnewest
      rcases hle.lt_or_eq with hlt | rfl
      · exact hleaves.2.resolve_right (not_not_intro hget) _ hlt hpending
      · exact hpending.2.2 hleaves.1
    exact ⟨newest, hle, (Bucket.get_erase ..).trans ((if_neg hid).trans hnewest)⟩

end Transactions

theorem release_log (s : State) (id : String) (generation : ℕ) :
    s.log <+: (s.releaseOutboxGeneration id generation).2.log := by
  unfold State.releaseOutboxGeneration
  cases s.around.release with
  | some err => exact List.prefix_rfl
  | none =>
    split_ifs
    · exact List.prefix_rfl
    · exact List.prefix_rfl

/-! ## Threads -/

section Threads

variable {i : ℕ}
variable {generation : ℕ} {id : String}

/-- A call that has just reserved. -/
def Waits (i : ℕ) (id : String) (generation : ℕ) (s : State) : Prop :=
  .reserved i id generation ∈ s.log ∧ s.Pending id generation

theorem waits_of_reserve {s : State} (hs : Lines s)
    (h : (s.reserveOutboxGeneration i id).1 = .ok generation) :
    Waits i id generation (s.reserveOutboxGeneration i id).2 := by
  unfold State.reserveOutboxGeneration at h ⊢
  rcases hreserve : s.around.reserve with _ | err
  swap
  · simp [hreserve] at h
  simp only [hreserve] at h ⊢
  split_ifs at h ⊢
  obtain rfl := Except.ok.inj h
  refine ⟨by simp, Nat.lt_succ_of_le hs.boot, ⟨_, List.mem_append_right _
    (List.mem_singleton_self _), rfl, rfl⟩, ?_⟩
  rintro ⟨event, hmem, htries⟩
  rcases List.mem_append.1 hmem with hold | hnew
  · exact Nat.not_succ_le_self _ (hs.tried ⟨event, hold, htries⟩)
  · obtain rfl := List.mem_singleton.1 hnew
    exact htries

theorem stable_waits : lines.Stable i (Waits i id generation) := by
  rintro s s' - - hkeeps ⟨hreserved, hrecent, ⟨event, hevent, hreserves⟩, huntried⟩
  exact ⟨hkeeps.log.subset hreserved, hkeeps.boot ▸ hrecent,
    ⟨event, hkeeps.log.subset hevent, hreserves⟩, fun htried => huntried (hkeeps.own hreserved htried)⟩

theorem stable_leaves : lines.Stable i (Leaves id generation) := by
  rintro s s' hs - hkeeps ⟨htried, hclear⟩
  have hle : generation ≤ s.generation := hs.tried htried
  refine ⟨htried.mono hkeeps.log, hclear.imp (fun hnone older hlt hpending => ?_) fun hne hget => ?_⟩
  · exact hnone older hlt (hkeeps.pending (hlt.le.trans hle) hpending)
  · exact hne (hkeeps.reservations hle hget)

theorem stable_newer {fact : Prop} : lines.Stable i fun s => fact → s.Newer id generation :=
  fun _ _ _ _ hkeeps h hfact => (h hfact).mono hkeeps.log

/-- If a call returns without an error and not as the current one, something newer was put. -/
theorem stageOutbox_gives_way (purpose : Purpose) (since : ℕ) (peerID : String)
    (kind : GossipKind) (entity : String) (payload : Payload) :
    lines.Triple node orderly.may i (fun _ => True)
      (stageOutbox purpose since peerID kind entity payload)
      fun result s => ∀ a, result = .ok (a, false) → s.Newer a.entry.id a.entry.generation := by
  unfold stageOutbox
  refine Sharing.Triple.act (fun result s => ∀ generation, result = .ok generation →
    Waits i (outboxKey peerID kind ((notificationEntityFromPayload kind payload).getD entity))
      generation s) Sharing.stable_true (fun s hs _ _ => ?_) fun result => ?_
  · have hfair := hs.reserve (i := i)
      (outboxKey peerID kind ((notificationEntityFromPayload kind payload).getD entity))
    exact ⟨hfair.inv, hfair.others, fun generation => waits_of_reserve hs⟩
  cases result with
  | error err =>
    exact (Sharing.Triple.ret Sharing.stable_true fun s _ _ a ha => by cases ha).given
      (fun _ _ _ => trivial)
  | ok generation =>
    set entry : OutboxEntry :=
      ⟨outboxKey peerID kind ((notificationEntityFromPayload kind payload).getD entity), peerID,
        kind, (notificationEntityFromPayload kind payload).getD entity, generation, payload, since⟩
    refine Sharing.Triple.given
      (?_ : lines.Triple node orderly.may i (Waits i entry.id entry.generation) _ _)
      (fun s _ h => h generation rfl)
    refine Sharing.Triple.act (fun result s => Leaves entry.id entry.generation s ∧
      (result = .ok false → s.Newer entry.id entry.generation)) stable_waits
      (fun s hs h hmay => ?_) fun result => ?_
    · obtain ⟨hfair, hmid⟩ := hs.put (e := entry) h.1 h.2 hmay.2
      exact ⟨hfair.inv, hfair.others, hmid⟩
    refine Sharing.Triple.act (fun _ s => result = .ok false → s.Newer entry.id entry.generation)
      (stable_leaves.and stable_newer) (fun s hs h _ => ?_) fun _ => ?_
    · have hfair := hs.release (i := i) h.1
      exact ⟨hfair.inv, hfair.others, fun hresult => (h.2 hresult).mono (release_log ..)⟩
    cases result with
    | error err =>
      exact (Sharing.Triple.ret Sharing.stable_true fun s _ _ a ha => by cases ha).given
        (fun _ _ _ => trivial)
    | ok applied =>
      refine Sharing.Triple.ret stable_newer fun s _ h a ha => ?_
      cases ha
      exact h rfl

theorem enqueueOutbox_lines (peerID : String) (kind : GossipKind) (dedupe : String)
    (payload : Payload) :
    lines.Triple node orderly.may i (fun _ => True) (enqueueOutbox peerID kind dedupe payload)
      fun _ _ => True := by
  unfold enqueueOutbox
  refine Sharing.Triple.act (fun _ _ => True) Sharing.stable_true
    (fun s hs _ _ => ⟨hs, fun j _ => Aside.refl j s, trivial⟩) fun since => ?_
  refine (stageOutbox_gives_way _ _ _ _ _ _).bind fun _ => ?_
  exact (Sharing.Triple.ret Sharing.stable_true fun _ _ _ => trivial).given (fun _ _ _ => trivial)

end Threads

/-! ## Runs -/

theorem lines_fresh : Lines fresh.state where
  boot := le_rfl
  counted := fun h => absurd h List.not_mem_nil
  tried := fun ⟨_, h, _⟩ => absurd h List.not_mem_nil
  own := fun h => absurd h List.not_mem_nil
  pending := fun ⟨_, ⟨_, h, _⟩, _⟩ => absurd h List.not_mem_nil
  superseded := fun h => absurd h List.not_mem_nil
  spawned := rfl

theorem lines_of_reachable {c : Crew Action State} (h : Reachable orderly c) : Lines c.state := by
  have hsound : lines.Sound node orderly.may c := by
    induction h with
    | refl => exact .idle lines_fresh
    | tail _ hstep ih =>
      have hinv := ih.inv
      cases hstep with
      | act hact => exact ih.step hact
      | ask i request hidle hasks =>
        cases request with
        | enqueue peerID kind dedupe payload =>
          exact ih.assign (enqueueOutbox_lines peerID kind dedupe payload) trivial
        | notify _ _ _ _ | mutate _ | flush => exact hasks.elim
      | deliver i a tracked before rest hidle hspawned =>
        rw [hinv.spawned] at hspawned
        exact absurd hspawned.symm (by simp)
      | remote _ | surroundings _ =>
        exact ih.interfere ⟨hinv.boot, hinv.counted, hinv.tried, hinv.own, hinv.pending,
          hinv.superseded, hinv.spawned⟩
          fun _ => ⟨rfl, le_rfl, List.prefix_rfl, fun _ h => h, fun _ h => h, fun _ h => h⟩
      | restart =>
        -- No call survives the crash.
        refine .idle ⟨le_rfl, hinv.counted, hinv.tried, hinv.own, ?_, hinv.superseded, rfl⟩
        rintro id generation ⟨hrecent, ⟨event, hevent, hreserves⟩, -⟩
        obtain ⟨owner, rfl⟩ := hreserves.eq
        exact absurd (hinv.counted hevent) hrecent.not_ge
  exact hsound.inv

/-- Over all runs of orderly calls of `stageOutbox`, with faults and restarts, a call whose put
gave way to a newer one finds that something newer was put under its key. -/
theorem superseded_put_is_stored (c : Crew Action State) (h : Reachable orderly c) :
    ∀ id generation, .superseded id generation ∈ c.state.log → c.state.Newer id generation :=
  fun _ _ hmem => (lines_of_reachable h).superseded hmem

/-- A call of `stageOutbox` for the file `"f"` and the peer `"b"`. -/
def stageFile : Request := .enqueue "b" .vfs "f" (.vfs ⟨"f", 1, "h", 1, false⟩)

/-- Two calls on one key have reserved: first thread `0`, then thread `1`. -/
def bothReserved : Crew Action State :=
  ((fresh.assign 0 stageFile.thread).assign 1 stageFile.thread).follow node [0, 0, 1, 1]

theorem reachable_bothReserved {cond : Condition} (hasks : cond.asks stageFile)
    (hturns : Crew.CanFollow node cond.may [0, 0, 1, 1]
      ((fresh.assign 0 stageFile.thread).assign 1 stageFile.thread)) :
    Reachable cond bothReserved :=
  .trans (.head (.ask 0 stageFile rfl hasks) (.single (.ask 1 stageFile rfl hasks)))
    (turns_run _ hturns)

/-- The newer call puts before the older one tries. -/
theorem superseded_put_is_stored_newer_first :
    ∃ c, Reachable orderly c ∧ .superseded (outboxKey "b" .vfs "f") 1 ∈ c.state.log ∧
      c.state.Newer (outboxKey "b" .vfs "f") 1 := by
  have hrun : Reachable orderly (bothReserved.follow node [1, 1, 0]) :=
    .trans (reachable_bothReserved trivial (by decide +kernel)) (turns_run _ (by decide +kernel))
  have hmem : .superseded (outboxKey "b" .vfs "f") 1 ∈
      (bothReserved.follow node [1, 1, 0]).state.log := by decide +kernel
  exact ⟨_, hrun, hmem, superseded_put_is_stored _ hrun _ _ hmem⟩

/-- The put of the newer call fails, and the older one still gives way to it: both calls are at
their end, the older one without an error, and nothing was put. -/
theorem superseded_by_failed_put :
    ∃ c, Reachable stagings c ∧ c.threads 0 = .ret () ∧ c.threads 1 = .ret () ∧
      .superseded (outboxKey "b" .vfs "f") 1 ∈ c.state.log ∧
      ¬ c.state.Newer (outboxKey "b" .vfs "f") 1 ∧ c.state.entries.entries = [] := by
  have hreserved : Reachable stagings bothReserved :=
    reachable_bothReserved trivial (by decide +kernel)
  have hfails : Reachable stagings _ :=
    (hreserved.tail (.surroundings { put := some (.errorf "disk full" []) })).trans
      (turns_run [1, 1] (by decide +kernel))
  have hrun : Reachable stagings _ :=
    (hfails.tail (.surroundings {})).trans (turns_run [0, 0] (by decide +kernel))
  refine ⟨_, hrun, rfl, rfl, by decide +kernel, ?_, by decide +kernel⟩
  rintro ⟨e, hput, -⟩
  have hlog : Event.put e ∈ [.reserved 0 (outboxKey "b" .vfs "f") 1,
      .reserved 1 (outboxKey "b" .vfs "f") 2, .abandoned (outboxKey "b" .vfs "f") 2,
      .superseded (outboxKey "b" .vfs "f") 1] := hput
  simp at hlog

end Proxyma.Outbox
