import Proxyma.Lib.Bucket

/-!
# The peer registry

A node keeps one entry per peer: the address record the peer is registered with, if
any, and whether it was reached last.  `AddPeer` first evicts the other peers that are
registered with the primary address of the incoming record, and only then looks at
sequence numbers: an older record is refused, one of the same sequence adds its
addresses to those of the peer, a newer one replaces the record.

`accept` is that last decision.  What a call does to the records is said once, by
`record_addPeer_self`, `record_addPeer_other` and `mem_evicted`; the two main results
follow from these.  Primary addresses stay unique along every sequence of calls,
because the primary that ends up stored is the incoming one, or one the peer had
already.  But an eviction is justified only if the incoming primary does end up
stored.
-/

namespace Proxyma.Peers

open Keyed

/-- `AddressRecord`. -/
structure AddressRecord where
  addresses : List String
  sequence : ℤ := 0
  isSponsor : Bool := false
  deriving DecidableEq, Repr, Inhabited

def AddressRecord.primary (r : AddressRecord) : Option String := r.addresses.head?

/-- `peerState`, with `record = none` for `hasRecord = false`. -/
structure PeerState where
  record : Option AddressRecord := none
  online : Bool := false
  lastError : String := ""
  deriving DecidableEq, Repr, Inhabited

/-- A peer that has just been registered; `markOnlineLocked` clears its error. -/
def PeerState.registered (record : AddressRecord) : PeerState where
  record := some record
  online := true
  lastError := ""

/-- `PeerRegistry`. -/
structure PeerRegistry where
  nodeID : String
  peers : Bucket String PeerState
  deriving DecidableEq

namespace PeerRegistry

/-- `NewPeerRegistry`. -/
def new (nodeID : String) : PeerRegistry := ⟨nodeID, .empty⟩

/-- `GetPeerRecord`. -/
def record (pr : PeerRegistry) (peerID : String) : Option AddressRecord :=
  (pr.peers.get peerID).bind PeerState.record

/-! ## Calls -/

/-- The addresses of a peer with the new ones of a record of the same sequence. -/
def mergeAddresses (existing incoming : List String) : List String :=
  incoming.foldl (fun merged a => if a ∈ merged then merged else merged ++ [a]) existing

/-- The record that `AddPeer` stores for a peer, unless it refuses the incoming one. -/
def accept (existing : Option AddressRecord) (incoming : AddressRecord) : Option AddressRecord :=
  match existing with
  | none => some incoming
  | some existing =>
    if incoming.sequence < existing.sequence then none
    else if incoming.sequence = existing.sequence then
      some { incoming with
        addresses := mergeAddresses existing.addresses incoming.addresses }
    else some incoming

/-- The peers that `AddPeer` evicts: those registered with the incoming primary
address. -/
def evictedBy (pr : PeerRegistry) (peerID : String) (incoming : AddressRecord) : List String :=
  match incoming.addresses with
  | [] => []
  | newPrimaryAddr :: _ =>
    (pr.peers.entries.filter fun e => e.1 ≠ peerID ∧
      (e.2.record.any fun r => r.primary = some newPrimaryAddr)).map Prod.fst

/-- `AddPeer`: whether a record was written, who was evicted, and the registry
afterwards. -/
def addPeer (pr : PeerRegistry) (peerID : String) (incoming : AddressRecord) :
    Bool × List String × PeerRegistry :=
  if peerID = pr.nodeID then (false, [], pr)
  else
    let evicted := pr.evictedBy peerID incoming
    let peers := pr.peers.eraseAll evicted
    let state := (peers.get peerID).getD {}
    match accept state.record incoming with
    | none => (false, evicted, { pr with peers := peers })
    | some stored =>
      (true, evicted, { pr with peers := peers.put peerID (.registered stored) })

def removePeer (pr : PeerRegistry) (peerID : String) : PeerRegistry :=
  { pr with peers := pr.peers.erase peerID }

/-- `SetPeerOffline`, with the text of the error if there is one. -/
def setPeerOffline (pr : PeerRegistry) (peerID : String) (err : Option String) : PeerRegistry :=
  let state := (pr.peers.get peerID).getD {}
  { pr with
    peers := pr.peers.put peerID { state with
      online := false
      lastError := match err with
        | some err => "offline or could not reach: " ++ err
        | none => "offline" } }

/-! ## What a call does to the records -/

section Effects

variable {pr : PeerRegistry} {id other : String} {incoming : AddressRecord}

/-- The registry after `AddPeer`. -/
def added (pr : PeerRegistry) (id : String) (incoming : AddressRecord) : PeerRegistry :=
  (pr.addPeer id incoming).2.2

/-- Whom `AddPeer` evicts. -/
def evicted (pr : PeerRegistry) (id : String) (incoming : AddressRecord) : List String :=
  (pr.addPeer id incoming).2.1

@[simp] theorem nodeID_added : (pr.added id incoming).nodeID = pr.nodeID := by
  unfold added addPeer
  split_ifs
  · rfl
  · dsimp only
    split <;> rfl

theorem mem_evictedBy : other ∈ pr.evictedBy id incoming ↔
    other ≠ id ∧ ∃ r, pr.record other = some r ∧ r.primary = incoming.primary ∧
      incoming.primary.isSome := by
  unfold evictedBy
  rcases haddresses : incoming.addresses with _ | ⟨newPrimaryAddr, rest⟩
  · simp [AddressRecord.primary, haddresses]
  have hprimary : incoming.primary = some newPrimaryAddr := by
    rw [AddressRecord.primary, haddresses, List.head?_cons]
  simp only [List.mem_map, List.mem_filter, Prod.exists, exists_and_right, exists_eq_right,
    Bucket.mem_entries, decide_eq_true_eq, hprimary, Option.isSome_some, and_true, record,
    Option.bind_eq_some_iff, Option.any_eq_true]
  constructor
  · rintro ⟨state, hstate, hne, r, hr, haddr⟩
    exact ⟨hne, r, ⟨state, hstate, hr⟩, haddr⟩
  · rintro ⟨hne, r, ⟨state, hstate, hr⟩, haddr⟩
    exact ⟨state, hstate, hne, r, hr, haddr⟩

theorem evicted_eq : pr.evicted id incoming =
    if id = pr.nodeID then [] else pr.evictedBy id incoming := by
  unfold evicted addPeer
  split_ifs
  · rfl
  · dsimp only
    split <;> rfl

/-- Evicted are the other peers with the incoming primary address. -/
theorem mem_evicted : other ∈ pr.evicted id incoming ↔ id ≠ pr.nodeID ∧ other ≠ id ∧
    ∃ r, pr.record other = some r ∧ r.primary = incoming.primary ∧ incoming.primary.isSome := by
  rw [evicted_eq]
  split_ifs with hself
  · simp [hself]
  · rw [mem_evictedBy]
    simp [hself]

/-- The peers that are left after an eviction. -/
def remaining (pr : PeerRegistry) (id : String) (incoming : AddressRecord) :
    Bucket String PeerState :=
  pr.peers.eraseAll (pr.evictedBy id incoming)

/-- The entry of the peer itself is not among the evicted ones. -/
theorem get_remaining_self : (pr.remaining id incoming).get id = pr.peers.get id := by
  have hnot : id ∉ pr.evictedBy id incoming := fun h => (mem_evictedBy.1 h).1 rfl
  simp [remaining, hnot]

theorem addPeer_of_ne (hself : id ≠ pr.nodeID) :
    pr.addPeer id incoming =
      match accept (pr.record id) incoming with
      | none => (false, pr.evictedBy id incoming, ⟨pr.nodeID, pr.remaining id incoming⟩)
      | some stored => (true, pr.evictedBy id incoming,
          ⟨pr.nodeID, (pr.remaining id incoming).put id (.registered stored)⟩) := by
  have hrecord : (((pr.remaining id incoming).get id).getD {}).record = pr.record id := by
    rw [get_remaining_self, record]
    cases pr.peers.get id <;> rfl
  unfold addPeer
  rw [if_neg hself, ← hrecord]
  rfl

theorem updated_iff : (pr.addPeer id incoming).1 = true ↔
    id ≠ pr.nodeID ∧ (accept (pr.record id) incoming).isSome := by
  by_cases hself : id = pr.nodeID
  · simp [addPeer, hself]
  · rw [addPeer_of_ne hself]
    cases accept (pr.record id) incoming <;> simp [hself]

/-- The peer itself is registered with what was accepted, or stays as it was. -/
theorem record_addPeer_self (hself : id ≠ pr.nodeID) :
    (pr.added id incoming).record id = (accept (pr.record id) incoming).or (pr.record id) := by
  rw [added, addPeer_of_ne hself]
  cases accept (pr.record id) incoming with
  | none =>
    change ((pr.remaining id incoming).get id).bind _ = _
    rw [get_remaining_self, Option.none_or]
    rfl
  | some stored => simp [record, PeerState.registered]

/-- The other peers stay as they were, unless they are evicted. -/
theorem record_addPeer_other (hother : other ≠ id) : (pr.added id incoming).record other =
    if other ∈ pr.evicted id incoming then none else pr.record other := by
  by_cases hself : id = pr.nodeID
  · have hnone : other ∉ pr.evicted id incoming := fun h => (mem_evicted.1 h).1 hself
    rw [if_neg hnone, added, addPeer, if_pos hself]
  rw [added, evicted_eq, if_neg hself, addPeer_of_ne hself]
  cases accept (pr.record id) incoming with
  | none =>
    simp only [record, remaining, Bucket.get_eraseAll]
    split_ifs <;> rfl
  | some stored =>
    simp only [record, remaining, Bucket.get_put, hother, if_false, Bucket.get_eraseAll]
    split_ifs <;> rfl

theorem record_addPeer_node (hself : id = pr.nodeID) : pr.added id incoming = pr := by
  rw [added, addPeer, if_pos hself]

@[simp] theorem record_removePeer :
    (pr.removePeer id).record other = if other = id then none else pr.record other := by
  simp only [record, removePeer, Bucket.get_erase]
  split_ifs <;> rfl

@[simp] theorem record_setPeerOffline {err : Option String} :
    (pr.setPeerOffline id err).record other = pr.record other := by
  simp only [record, setPeerOffline, Bucket.get_put]
  split_ifs with hid
  · subst hid
    cases pr.peers.get other <;> rfl
  · rfl

end Effects

/-! ## Addresses and sequence numbers -/

theorem prefix_mergeAddresses (existing incoming : List String) :
    existing <+: mergeAddresses existing incoming := by
  unfold mergeAddresses
  induction incoming generalizing existing with
  | nil => exact List.prefix_rfl
  | cons a rest ih =>
    rw [List.foldl_cons]
    split_ifs
    · exact ih existing
    · exact (List.prefix_append existing [a]).trans (ih _)

theorem mem_mergeAddresses {existing incoming : List String} {a : String} :
    a ∈ mergeAddresses existing incoming ↔ a ∈ existing ∨ a ∈ incoming := by
  unfold mergeAddresses
  induction incoming generalizing existing with
  | nil => simp
  | cons b rest ih =>
    rw [List.foldl_cons, ih]
    split_ifs with hb
    · simp only [List.mem_cons]
      constructor
      · exact Or.imp_right .inr
      · rintro (h | rfl | h)
        · exact .inl h
        · exact .inl hb
        · exact .inr h
    · simp [or_assoc]

/-- A merge keeps the primary address, or takes the incoming one if there is none. -/
theorem head?_mergeAddresses (existing incoming : List String) :
    (mergeAddresses existing incoming).head? = existing.head?.or incoming.head? := by
  cases existing with
  | cons a rest =>
    obtain ⟨new, hnew⟩ := prefix_mergeAddresses (a :: rest) incoming
    rw [← hnew]
    rfl
  | nil =>
    rcases incoming with _ | ⟨a, rest⟩
    · rfl
    obtain ⟨new, hnew⟩ := prefix_mergeAddresses [a] rest
    have hmerge : mergeAddresses [] (a :: rest) = mergeAddresses [a] rest := by
      simp [mergeAddresses]
    rw [hmerge, ← hnew]
    rfl

/-- The primary address of an accepted record is the incoming one, or one the peer
had before. -/
theorem primary_accept {existing : Option AddressRecord} {incoming stored : AddressRecord}
    (h : accept existing incoming = some stored) :
    stored.primary = incoming.primary ∨
      ∃ r, existing = some r ∧ stored.primary = r.primary ∧ r.primary.isSome := by
  unfold accept at h
  cases existing with
  | none =>
    cases h
    exact .inl rfl
  | some r =>
    dsimp only at h
    split_ifs at h
    · cases h
      have hmerge := head?_mergeAddresses r.addresses incoming.addresses
      rcases hprimary : r.addresses.head? with _ | a
      · exact .inl (by rw [AddressRecord.primary, hmerge, hprimary]; rfl)
      refine .inr ⟨r, rfl, ?_, ?_⟩
      · rw [AddressRecord.primary, AddressRecord.primary, hmerge, hprimary]
        rfl
      · rw [AddressRecord.primary, hprimary]
        rfl
    · cases h
      exact .inl rfl

/-! ## Sequences of calls -/

/-- A call that changes the registered peers. -/
inductive Change
  | add (peerID : String) (incoming : AddressRecord)
  | remove (peerID : String)

/-- The registry after a call. -/
def apply (pr : PeerRegistry) : Change → PeerRegistry
  | .add peerID incoming => pr.added peerID incoming
  | .remove peerID => pr.removePeer peerID

/-- No two peers are registered with the same primary address. -/
def UniquePrimaries (pr : PeerRegistry) : Prop :=
  ∀ p q r r', pr.record p = some r → pr.record q = some r' → r.primary = r'.primary →
    r.primary.isSome → p = q

/-- A peer that is registered after `AddPeer` was so before and is not evicted, or it
is the one whose record was accepted. -/
theorem record_added {pr : PeerRegistry} {id p : String} {incoming r : AddressRecord}
    (h : (pr.added id incoming).record p = some r) :
    (pr.record p = some r ∧ p ∉ pr.evicted id incoming) ∨
      p = id ∧ id ≠ pr.nodeID ∧ accept (pr.record id) incoming = some r := by
  by_cases hid : p = id
  · subst hid
    have hnot : p ∉ pr.evicted p incoming := fun h => (mem_evicted.1 h).2.1 rfl
    by_cases hself : p = pr.nodeID
    · rw [record_addPeer_node hself] at h
      exact .inl ⟨h, hnot⟩
    · rw [record_addPeer_self hself, Option.or_eq_some_iff] at h
      exact h.symm.imp (fun h => ⟨h.2, hnot⟩) fun h => ⟨rfl, hself, h⟩
  · rw [record_addPeer_other hid] at h
    split_ifs at h with hevicted
    exact .inl ⟨h, hevicted⟩

theorem UniquePrimaries.added {pr : PeerRegistry} (h : pr.UniquePrimaries) (id : String)
    (incoming : AddressRecord) : (pr.added id incoming).UniquePrimaries := by
  -- a peer that is still there does not share its primary with what is accepted now
  have hapart : ∀ {q r r'}, pr.record q = some r' → q ∉ pr.evicted id incoming →
      id ≠ pr.nodeID → accept (pr.record id) incoming = some r → r.primary = r'.primary →
      r.primary.isSome → id = q := by
    intro q r r' hrecord hnot hself haccept hprimary hsome
    rcases primary_accept haccept with hincoming | ⟨old, hold, hsame, -⟩
    · by_contra hq
      refine hnot (mem_evicted.2 ⟨hself, Ne.symm hq, r', hrecord, ?_, ?_⟩)
      · rw [← hprimary, hincoming]
      · rwa [← hincoming]
    · exact h id q old r' hold hrecord (by rw [← hprimary, hsame]) (hsame ▸ hsome)
  intro p q r r' hp hq hprimary hsome
  rcases record_added hp with ⟨hr, hpkept⟩ | ⟨rfl, hself, hr⟩ <;>
    rcases record_added hq with ⟨hr', hqkept⟩ | ⟨rfl, hself, hr'⟩
  · exact h p q r r' hr hr' hprimary hsome
  · exact (hapart hr hpkept hself hr' hprimary.symm (hprimary ▸ hsome)).symm
  · exact hapart hr' hqkept hself hr hprimary hsome
  · rfl

theorem UniquePrimaries.apply {pr : PeerRegistry} (h : pr.UniquePrimaries) (change : Change) :
    (pr.apply change).UniquePrimaries := by
  cases change with
  | add id incoming => exact h.added id incoming
  | remove id =>
    intro p q r r' hp hq hprimary hsome
    simp only [PeerRegistry.apply, record_removePeer] at hp hq
    split_ifs at hp hq
    exact h p q r r' hp hq hprimary hsome

/-- A record that came after another without the peer having been away. -/
structure Grown (r r' : AddressRecord) : Prop where
  sequence : r.sequence ≤ r'.sequence
  addresses : r.sequence = r'.sequence → r.addresses <+: r'.addresses

theorem Grown.trans {r₁ r₂ r₃ : AddressRecord} (h₁ : Grown r₁ r₂) (h₂ : Grown r₂ r₃) :
    Grown r₁ r₃ := by
  refine ⟨h₁.sequence.trans h₂.sequence, fun h => ?_⟩
  have hmiddle : r₁.sequence = r₂.sequence :=
    le_antisymm h₁.sequence (h ▸ h₂.sequence)
  exact (h₁.addresses hmiddle).trans (h₂.addresses (hmiddle ▸ h))

/-- An accepted record is not older, and of the same sequence it only adds addresses. -/
theorem accept_grows {existing incoming stored : AddressRecord}
    (h : accept (some existing) incoming = some stored) : Grown existing stored := by
  unfold accept at h
  dsimp only at h
  split_ifs at h with holder hsame
  · cases h
    exact ⟨hsame.ge, fun _ => prefix_mergeAddresses _ _⟩
  · cases h
    exact ⟨not_lt.1 holder, fun heq => absurd heq.symm hsame⟩

/-- A call that leaves a peer registered lets its record grow. -/
theorem apply_grows {pr : PeerRegistry} {change : Change} {p : String} {r r' : AddressRecord}
    (hbefore : pr.record p = some r) (hafter : (pr.apply change).record p = some r') :
    Grown r r' := by
  have hsame : pr.record p = some r' → Grown r r' := by
    intro h
    cases hbefore.symm.trans h
    exact ⟨le_rfl, fun _ => List.prefix_rfl⟩
  cases change with
  | add id incoming =>
    rcases record_added hafter with ⟨h, -⟩ | ⟨rfl, -, haccept⟩
    · exact hsame h
    · exact accept_grows (hbefore ▸ haccept)
  | remove id =>
    simp only [PeerRegistry.apply, record_removePeer] at hafter
    split_ifs at hafter
    exact hsame hafter

/-- A call after which a peer that was registered is registered still. -/
def KeepsPeer (p : String) (pr pr' : PeerRegistry) : Prop :=
  (∃ change, pr' = pr.apply change) ∧ (pr.record p).isSome ∧ (pr'.record p).isSome

/-- Along every sequence of calls the primary addresses are unique, and the record of
a peer that is neither removed nor evicted only grows. -/
theorem registry_addresses (nodeID : String) (calls : List Change) (p : String)
    (pr' : PeerRegistry)
    (hkept : Relation.ReflTransGen (KeepsPeer p) (calls.foldl apply (new nodeID)) pr') :
    (calls.foldl apply (new nodeID)).UniquePrimaries ∧
      ∀ r r', (calls.foldl apply (new nodeID)).record p = some r → pr'.record p = some r' →
        Grown r r' := by
  constructor
  · have hrun : ∀ pr : PeerRegistry, pr.UniquePrimaries →
        (calls.foldl apply pr).UniquePrimaries := by
      clear hkept
      induction calls with
      | nil => exact fun pr h => h
      | cons call rest ih => exact fun pr h => ih _ (h.apply call)
    refine hrun _ fun p q r r' hp => ?_
    simp [record, new] at hp
  · induction hkept with
    | refl =>
      intro r r' hr hr'
      cases hr.symm.trans hr'
      exact ⟨le_rfl, fun _ => List.prefix_rfl⟩
    | tail _ hstep ih =>
      intro r r' hr hr'
      obtain ⟨⟨change, rfl⟩, hbefore, -⟩ := hstep
      obtain ⟨middle, hmiddle⟩ := Option.isSome_iff_exists.1 hbefore
      exact (ih r middle hr hmiddle).trans (apply_grows hmiddle hr')

/-- A peer that announces a second address under the same sequence number. -/
theorem registry_addresses_merged :
    let one : Change := .add "p" { addresses := ["x"], sequence := 1 }
    let two : Change := .add "p" { addresses := ["y"], sequence := 1 }
    let before := [one].foldl apply (new "n")
    let after := before.apply two
    Relation.ReflTransGen (KeepsPeer "p") before after ∧ before.UniquePrimaries ∧
      after.record "p" = some { addresses := ["x", "y"], sequence := 1 } := by
  intro one two before after
  have hkept : Relation.ReflTransGen (KeepsPeer "p") before after :=
    .single ⟨⟨two, rfl⟩, by decide +kernel, by decide +kernel⟩
  exact ⟨hkept, (registry_addresses "n" [one] "p" after hkept).1, by decide +kernel⟩

/-! ## Evictions -/

/-- A call that reports no update changes nothing, and evicts a peer only in favour of
one that has its primary address now. -/
structure Justified (pr : PeerRegistry) (id : String) (incoming : AddressRecord) : Prop where
  refused : (pr.addPeer id incoming).1 = false → pr.added id incoming = pr
  replaced : ∀ other ∈ pr.evicted id incoming, ∀ r, pr.record other = some r →
    ∃ stored, (pr.added id incoming).record id = some stored ∧ stored.primary = r.primary

/-- No other peer is registered with the incoming primary address. -/
def Uncontested (pr : PeerRegistry) (id : String) (incoming : AddressRecord) : Prop :=
  ∀ other r, other ≠ id → pr.record other = some r → incoming.primary.isSome →
    r.primary ≠ incoming.primary

/-- The incoming primary address becomes that of the peer: the peer is new, or the
record is newer, or of the same sequence and the peer has no other primary. -/
def TakesPrimary (existing : Option AddressRecord) (incoming : AddressRecord) : Prop :=
  match existing with
  | none => True
  | some existing => existing.sequence < incoming.sequence ∨
      existing.sequence = incoming.sequence ∧
        (existing.primary = none ∨ existing.primary = incoming.primary)

/-- The stored record has the incoming primary address just when the peer takes it. -/
theorem takesPrimary_iff {existing : Option AddressRecord} {incoming : AddressRecord} :
    TakesPrimary existing incoming ↔
      ∃ stored, accept existing incoming = some stored ∧ stored.primary = incoming.primary := by
  unfold TakesPrimary accept
  rcases existing with _ | existing
  · simp
  dsimp only
  split_ifs with holder hsame
  · simp only [false_and, exists_false, iff_false]
    omega
  · have hmerge : (mergeAddresses existing.addresses incoming.addresses).head? =
        existing.primary.or incoming.primary := head?_mergeAddresses _ _
    simp only [hsame, lt_irrefl, false_or, true_and, Option.some.injEq, exists_eq_left']
    change _ ↔ (mergeAddresses existing.addresses incoming.addresses).head? = _
    rw [hmerge]
    cases existing.primary <;> simp
  · simp only [Option.some.injEq, exists_eq_left', iff_true]
    left
    omega

/-- Evictions are justified, and refused updates change nothing, just when nobody is
evicted or the incoming primary address ends up as that of the peer. -/
theorem evictions_justified_iff (pr : PeerRegistry) (id : String) (incoming : AddressRecord) :
    pr.Justified id incoming ↔
      id = pr.nodeID ∨ pr.Uncontested id incoming ∨ TakesPrimary (pr.record id) incoming := by
  constructor
  · intro h
    by_contra hnot
    simp only [not_or] at hnot
    obtain ⟨hself, hcontested, hprimary⟩ := hnot
    unfold Uncontested at hcontested
    push Not at hcontested
    obtain ⟨other, r, hother, hr, hsome, hsame⟩ := hcontested
    have hevicted : other ∈ pr.evicted id incoming :=
      mem_evicted.2 ⟨hself, hother, r, hr, hsame, hsome⟩
    rw [takesPrimary_iff] at hprimary
    cases haccept : accept (pr.record id) incoming with
    | none =>
      -- the update is refused, yet the other peer is gone
      have hrefused : (pr.addPeer id incoming).1 = false := by
        rw [Bool.eq_false_iff, Ne, updated_iff]
        simp [haccept]
      have hgone : (pr.added id incoming).record other =
          if other ∈ pr.evicted id incoming then none else pr.record other :=
        record_addPeer_other hother
      simp [h.refused hrefused, hr, if_pos hevicted] at hgone
    | some stored =>
      obtain ⟨stored', hstored, heq⟩ := h.replaced other hevicted r hr
      rw [record_addPeer_self hself, haccept, Option.some_or] at hstored
      cases hstored
      exact hprimary ⟨stored, haccept, heq.trans hsame⟩
  · intro hcond
    by_cases hself : id = pr.nodeID
    · refine ⟨fun _ => record_addPeer_node hself, fun other hother => ?_⟩
      exact absurd hself (mem_evicted.1 hother).1
    by_cases hnobody : pr.Uncontested id incoming
    · have hempty : pr.evictedBy id incoming = [] := by
        refine List.eq_nil_iff_forall_not_mem.2 fun other hother => ?_
        obtain ⟨hne, r, hr, hsame, hsome⟩ := mem_evictedBy.1 hother
        exact hnobody other r hne hr hsome hsame
      refine ⟨fun hrefused => ?_, fun other hother => ?_⟩
      · have haccept : accept (pr.record id) incoming = none := by
          by_contra hsome
          have hupdated := updated_iff.2 ⟨hself, Option.isSome_iff_ne_none.2 hsome⟩
          simp [hrefused] at hupdated
        rw [added, addPeer_of_ne hself, haccept, remaining, hempty]
        have hsame : pr.peers.eraseAll [] = pr.peers :=
          Bucket.ext_get fun key => by simp
        change PeerRegistry.mk pr.nodeID (pr.peers.eraseAll []) = pr
        rw [hsame]
      · simp [evicted_eq, hempty] at hother
    · have htakes : TakesPrimary (pr.record id) incoming :=
        (hcond.resolve_left hself).resolve_left hnobody
      obtain ⟨stored, haccept, hprimary⟩ := takesPrimary_iff.1 htakes
      refine ⟨fun hrefused => ?_, fun other hother r hr => ?_⟩
      · have hupdated := updated_iff.2 ⟨hself, Option.isSome_of_mem haccept⟩
        simp [hrefused] at hupdated
      · obtain ⟨-, -, r', hr', hsame, -⟩ := mem_evicted.1 hother
        cases hr.symm.trans hr'
        refine ⟨stored, ?_, hprimary.trans hsame.symm⟩
        rw [record_addPeer_self hself, haccept, Option.some_or]

/-- Two peers that are registered with different addresses. -/
def twoPeers : PeerRegistry :=
  ((new "n").apply (.add "p" { addresses := ["x"], sequence := 5 })).apply
    (.add "q" { addresses := ["y"], sequence := 5 })

/-- An old record of `q` with the address of `p` is refused, but `p` is gone; and one of
the same sequence evicts `p` while `q` keeps its own primary address. -/
theorem refused_update_evicts :
    (twoPeers.addPeer "q" { addresses := ["x"], sequence := 1 }).1 = false ∧
    twoPeers.record "p" = some { addresses := ["x"], sequence := 5 } ∧
    (twoPeers.added "q" { addresses := ["x"], sequence := 1 }).record "p" = none ∧
    twoPeers.evicted "q" { addresses := ["x"], sequence := 5 } = ["p"] ∧
    (twoPeers.added "q" { addresses := ["x"], sequence := 5 }).record "q" =
      some { addresses := ["y", "x"], sequence := 5 } := by
  decide +kernel

end PeerRegistry

end Proxyma.Peers
