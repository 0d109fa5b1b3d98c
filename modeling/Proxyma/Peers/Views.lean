import Proxyma.Peers.Registry

/-!
# Three copies of the peers

A server keeps its peers in the registry, in the database and in the router.
`Server.AddPeer` hands the same record to all three, but the registry may merge it with
the one it has, while the database and the router store what came in.  So the copies
agree as long as no record is merged into something else (`Unmerged`), and then a
restart, which registers the stored peers in the order of a Go map, gives the same
registry: the primary addresses are unique, so nobody is evicted on the way.
-/

namespace Proxyma.Peers

open Keyed

/-- What a server keeps about its peers. -/
structure ServerPeers where
  registry : PeerRegistry
  stored : Bucket String AddressRecord
  routes : Bucket String AddressRecord
  deriving DecidableEq

namespace ServerPeers

variable {id : String} {incoming : AddressRecord} {pr : PeerRegistry}

/-- A server that has not met anybody. -/
def new (nodeID : String) : ServerPeers := ⟨.new nodeID, .empty, .empty⟩

/-- `Server.AddPeer` when the database can be written. -/
def addPeer (s : ServerPeers) (peerID : String) (incoming : AddressRecord) : ServerPeers :=
  let (updated, evicted, registry) := s.registry.addPeer peerID incoming
  let stored := s.stored.eraseAll evicted
  let routes := s.routes.eraseAll evicted
  if updated then ⟨registry, stored.put peerID incoming, routes.put peerID incoming⟩
  else ⟨registry, stored, routes⟩

/-- `Server.RemovePeer`. -/
def removePeer (s : ServerPeers) (peerID : String) : ServerPeers :=
  ⟨s.registry.removePeer peerID, s.stored.erase peerID, s.routes.erase peerID⟩

/-- The registry that `New` makes of the stored peers, visited in some order. -/
def reload (nodeID : String) (peers : List (String × AddressRecord)) : PeerRegistry :=
  peers.foldl (fun pr e => (pr.added e.1 e.2).setPeerOffline e.1 (some "not contacted yet"))
    (.new nodeID)

/-! ## What a call does to the copies -/

section Effects

variable {s : ServerPeers} {id other : String} {incoming : AddressRecord}

theorem registry_addPeer : (s.addPeer id incoming).registry = s.registry.added id incoming := by
  unfold addPeer PeerRegistry.added
  dsimp only
  split_ifs <;> rfl

theorem stored_addPeer : (s.addPeer id incoming).stored.get other =
    if other = id ∧ (s.registry.addPeer id incoming).1 = true then some incoming
    else if other ∈ s.registry.evicted id incoming then none else s.stored.get other := by
  unfold addPeer PeerRegistry.evicted
  dsimp only
  split_ifs <;> simp_all

theorem routes_addPeer : (s.addPeer id incoming).routes.get other =
    if other = id ∧ (s.registry.addPeer id incoming).1 = true then some incoming
    else if other ∈ s.registry.evicted id incoming then none else s.routes.get other := by
  unfold addPeer PeerRegistry.evicted
  dsimp only
  split_ifs <;> simp_all

end Effects

/-! ## Agreement -/

/-- A view of the peers has the records of the registry. -/
def AgreesWith (pr : PeerRegistry) (view : Bucket String AddressRecord) : Prop :=
  ∀ id, view.get id = pr.record id

/-- The incoming record of a registered peer with the same sequence number is what its
merge with the registered one would be. -/
def Unmerged (pr : PeerRegistry) : PeerRegistry.Change → Prop
  | .add id incoming => ∀ existing, pr.record id = some existing →
      existing.sequence = incoming.sequence →
      PeerRegistry.mergeAddresses existing.addresses incoming.addresses = incoming.addresses
  | .remove _ => True

/-- A call to the server. -/
def apply (s : ServerPeers) : PeerRegistry.Change → ServerPeers
  | .add id incoming => s.addPeer id incoming
  | .remove id => s.removePeer id

theorem registry_apply (s : ServerPeers) (change : PeerRegistry.Change) :
    (s.apply change).registry = s.registry.apply change := by
  cases change with
  | add id incoming => exact registry_addPeer
  | remove id => rfl

theorem accept_unmerged {stored : AddressRecord} (hunmerged : Unmerged pr (.add id incoming))
    (haccept : PeerRegistry.accept (pr.record id) incoming = some stored) : stored = incoming := by
  cases hexisting : pr.record id with
  | none =>
    rw [hexisting] at haccept
    exact (Option.some.inj haccept).symm
  | some existing =>
    rw [hexisting] at haccept
    simp only [PeerRegistry.accept] at haccept
    split_ifs at haccept with _ hsame
    · rw [hunmerged existing hexisting hsame.symm] at haccept
      exact (Option.some.inj haccept).symm
    · exact (Option.some.inj haccept).symm

/-- A view that is written like the database keeps agreeing with the registry. -/
theorem AgreesWith.addPeer {view view' : Bucket String AddressRecord} (h : AgreesWith pr view)
    (hunmerged : Unmerged pr (.add id incoming))
    (hview : ∀ other, view'.get other =
      if other = id ∧ (pr.addPeer id incoming).1 = true then some incoming
      else if other ∈ pr.evicted id incoming then none else view.get other) :
    AgreesWith (pr.added id incoming) view' := by
  intro other
  rw [hview other]
  by_cases hother : other = id
  · subst hother
    have hkept : other ∉ pr.evicted other incoming := fun hmem =>
      (PeerRegistry.mem_evicted.1 hmem).2.1 rfl
    by_cases hself : other = pr.nodeID
    · have hrefused : (pr.addPeer other incoming).1 = false := by
        rw [Bool.eq_false_iff, Ne, PeerRegistry.updated_iff]
        simp [hself]
      rw [if_neg (by simp [hrefused]), if_neg hkept, PeerRegistry.record_addPeer_node hself, h other]
    · rw [PeerRegistry.record_addPeer_self hself]
      cases haccept : PeerRegistry.accept (pr.record other) incoming with
      | none =>
        have hrefused : (pr.addPeer other incoming).1 = false := by
          rw [Bool.eq_false_iff, Ne, PeerRegistry.updated_iff]
          simp [haccept]
        rw [if_neg (by simp [hrefused]), if_neg hkept, Option.none_or, h other]
      | some stored =>
        have hupdated : (pr.addPeer other incoming).1 = true :=
          PeerRegistry.updated_iff.2 ⟨hself, by rw [haccept]; rfl⟩
        rw [if_pos ⟨rfl, hupdated⟩, Option.some_or, accept_unmerged hunmerged haccept]
  · rw [if_neg (fun hcond => hother hcond.1), PeerRegistry.record_addPeer_other hother, h other]

/-- What holds of a server whose copies agree. -/
structure Sound (s : ServerPeers) : Prop where
  stored : AgreesWith s.registry s.stored
  routes : AgreesWith s.registry s.routes
  unique : s.registry.UniquePrimaries
  node : s.registry.record s.registry.nodeID = none

theorem Sound.apply {s : ServerPeers} (h : s.Sound) {change : PeerRegistry.Change}
    (hunmerged : Unmerged s.registry change) : (s.apply change).Sound := by
  have hunique : (s.apply change).registry.UniquePrimaries := by
    rw [registry_apply]
    exact h.unique.apply change
  cases change with
  | add id incoming =>
    refine ⟨?_, ?_, hunique, ?_⟩
    · change AgreesWith (s.addPeer id incoming).registry _
      rw [registry_addPeer]
      exact h.stored.addPeer hunmerged fun _ => stored_addPeer
    · change AgreesWith (s.addPeer id incoming).registry _
      rw [registry_addPeer]
      exact h.routes.addPeer hunmerged fun _ => routes_addPeer
    · change (s.addPeer id incoming).registry.record (s.addPeer id incoming).registry.nodeID = none
      rw [registry_addPeer, PeerRegistry.nodeID_added]
      by_cases hself : id = s.registry.nodeID
      · rw [PeerRegistry.record_addPeer_node hself]
        exact h.node
      · rw [PeerRegistry.record_addPeer_other (Ne.symm hself), h.node]
        split_ifs <;> rfl
  | remove id =>
    refine ⟨fun other => ?_, fun other => ?_, hunique, ?_⟩
    · simp only [ServerPeers.apply, removePeer, Bucket.get_erase, PeerRegistry.record_removePeer,
        h.stored other]
    · simp only [ServerPeers.apply, removePeer, Bucket.get_erase, PeerRegistry.record_removePeer,
        h.routes other]
    · simp only [ServerPeers.apply, removePeer, PeerRegistry.record_removePeer]
      split_ifs
      · rfl
      · exact h.node

/-! ## Restart -/

theorem record_reload_step {other : String} {err : Option String} (hself : id ≠ pr.nodeID)
    (hnew : pr.record id = none) (halone : pr.Uncontested id incoming) :
    ((pr.added id incoming).setPeerOffline id err).record other =
      if other = id then some incoming else pr.record other := by
  rw [PeerRegistry.record_setPeerOffline]
  split_ifs with hother
  · subst hother
    rw [PeerRegistry.record_addPeer_self hself, hnew]
    rfl
  · rw [PeerRegistry.record_addPeer_other hother, if_neg]
    intro hevicted
    obtain ⟨-, hne, r, hr, hsame, hsome⟩ := PeerRegistry.mem_evicted.1 hevicted
    exact halone other r hne hr hsome hsame

/-- Peers that can be registered in any order. -/
structure Separate (nodeID : String) (peers : List (String × AddressRecord)) : Prop where
  keys : (peers.map Prod.fst).Nodup
  node : ∀ e ∈ peers, e.1 ≠ nodeID
  primaries : ∀ e ∈ peers, ∀ e' ∈ peers, e.2.primary = e'.2.primary → e.2.primary.isSome →
    e.1 = e'.1

theorem record_reload_from (peers : List (String × AddressRecord)) (pr : PeerRegistry)
    (hpeers : Separate pr.nodeID peers)
    (hapart : ∀ q r, pr.record q = some r → ∀ e ∈ peers, e.1 ≠ q ∧
      (e.2.primary.isSome → r.primary ≠ e.2.primary)) (id : String) (r : AddressRecord) :
    (peers.foldl (fun pr e => (pr.added e.1 e.2).setPeerOffline e.1 (some "not contacted yet"))
      pr).record id = some r ↔ (id, r) ∈ peers ∨ pr.record id = some r := by
  induction peers generalizing pr with
  | nil => simp
  | cons e rest ih =>
    have hnew : pr.record e.1 = none := by
      by_contra hsome
      obtain ⟨old, hold⟩ := Option.ne_none_iff_exists'.1 hsome
      exact (hapart e.1 old hold e List.mem_cons_self).1 rfl
    have halone : pr.Uncontested e.1 e.2 := fun other old _ hold hsome =>
      (hapart other old hold e List.mem_cons_self).2 hsome
    have hstep : ∀ other, ((pr.added e.1 e.2).setPeerOffline e.1
        (some "not contacted yet")).record other =
          if other = e.1 then some e.2 else pr.record other := fun other =>
      record_reload_step (hpeers.node e List.mem_cons_self) hnew halone
    obtain ⟨hfirst, hrest⟩ := List.nodup_cons.1 hpeers.keys
    rw [List.foldl_cons, ih]
    · rw [hstep id, List.mem_cons]
      split_ifs with hid
      · subst hid
        simp only [Option.some.injEq, hnew, reduceCtorEq, or_false]
        constructor
        · rintro (hmem | rfl)
          · exact .inr hmem
          · exact .inl rfl
        · rintro (heq | hmem)
          · exact .inr (congrArg Prod.snd heq).symm
          · exact .inl hmem
      · have hne : (id, r) ≠ e := fun heq => hid (congrArg Prod.fst heq)
        simp [hne]
    · refine ⟨hrest, fun x hx => ?_, fun x hx y hy => ?_⟩
      · have hnode := hpeers.node x (List.mem_cons_of_mem _ hx)
        rwa [show ((pr.added e.1 e.2).setPeerOffline e.1 (some "not contacted yet")).nodeID =
          pr.nodeID from PeerRegistry.nodeID_added]
      · exact hpeers.primaries x (List.mem_cons_of_mem _ hx) y (List.mem_cons_of_mem _ hy)
    · intro q old hold x hx
      rw [hstep q] at hold
      split_ifs at hold with hq
      · subst hq
        cases hold
        have hne : x.1 ≠ e.1 := fun heq => hfirst (heq ▸ List.mem_map_of_mem hx)
        refine ⟨hne, fun hsome hsame => hne ?_⟩
        exact hpeers.primaries x (List.mem_cons_of_mem _ hx) e List.mem_cons_self hsame.symm hsome
      · exact hapart q old hold x (List.mem_cons_of_mem _ hx)

/-- A restart gives the registry of a server whose copies agree. -/
theorem Sound.record_reload {s : ServerPeers} (h : s.Sound)
    {order : List (String × AddressRecord)} (horder : order.Perm s.stored.entries) (id : String) :
    (reload s.registry.nodeID order).record id = s.registry.record id := by
  have hmem : ∀ {q r}, (q, r) ∈ order ↔ s.registry.record q = some r := fun {q r} => by
    rw [horder.mem_iff, Bucket.mem_entries, h.stored q]
  have hseparate : Separate s.registry.nodeID order := by
    refine ⟨?_, fun e he hnode => ?_, fun e he e' he' hsame hsome => ?_⟩
    · have hkeys : (s.stored.entries.map Prod.fst).Nodup :=
        (List.pairwise_map.2 s.stored.sorted).imp fun hlt => hlt.ne
      exact (horder.map Prod.fst).nodup_iff.2 hkeys
    · have hrecord := hmem.1 he
      simp [hnode, h.node] at hrecord
    · exact h.unique e.1 e'.1 e.2 e'.2 (hmem.1 he) (hmem.1 he') hsame hsome
  refine Option.ext fun r => ?_
  have hreload := record_reload_from order (.new s.registry.nodeID) hseparate
    (fun q old hold => by simp [PeerRegistry.record, PeerRegistry.new] at hold) id r
  rw [reload, hreload, hmem]
  simp [PeerRegistry.record, PeerRegistry.new]

/-- A call that meets the condition. -/
def Calls (s s' : ServerPeers) : Prop :=
  ∃ change, Unmerged s.registry change ∧ s' = s.apply change

/-- While no record is merged into something else, the registry, the database and the
router have the same records, and a restart gives the same registry whatever the order
of the stored peers. -/
theorem peer_views_agree (nodeID : String) (s : ServerPeers)
    (hrun : Relation.ReflTransGen Calls (new nodeID) s) (id : String) :
    s.stored.get id = s.registry.record id ∧ s.routes.get id = s.registry.record id ∧
      ∀ order, order.Perm s.stored.entries →
        (reload s.registry.nodeID order).record id = s.registry.record id := by
  have hsound : s.Sound := by
    induction hrun with
    | refl =>
      have hnobody : ∀ q, (new nodeID).registry.record q = none := fun q => rfl
      refine ⟨fun q => rfl, fun q => rfl, fun p q r r' hp => ?_, rfl⟩
      simp [hnobody p] at hp
    | tail _ hstep ih =>
      obtain ⟨change, hunmerged, rfl⟩ := hstep
      exact ih.apply hunmerged
  exact ⟨hsound.stored id, hsound.routes id, fun order horder => hsound.record_reload horder id⟩

/-- A peer announces itself, and then with one more address. -/
theorem peer_views_agree_longer :
    let s := ((new "n").apply (.add "p" { addresses := ["x"], sequence := 1 })).apply
      (.add "p" { addresses := ["x", "y"], sequence := 1 })
    Relation.ReflTransGen Calls (new "n") s ∧ s.stored.get "p" = s.registry.record "p" ∧
      s.registry.record "p" = some { addresses := ["x", "y"], sequence := 1 } := by
  intro s
  have hrun : Relation.ReflTransGen Calls (new "n") s := by
    refine .tail (.single ⟨.add "p" { addresses := ["x"], sequence := 1 }, ?_, rfl⟩)
      ⟨.add "p" { addresses := ["x", "y"], sequence := 1 }, ?_, rfl⟩
    · intro existing hexisting
      exact absurd hexisting (by simp [PeerRegistry.record, new, PeerRegistry.new])
    intro existing hexisting _
    have hrecord : ((new "n").apply (.add "p" { addresses := ["x"], sequence := 1 })).registry.record
        "p" = some { addresses := ["x"], sequence := 1 } := by decide +kernel
    rw [hrecord] at hexisting
    cases hexisting
    decide +kernel
  exact ⟨hrun, (peer_views_agree "n" s hrun "p").1, by decide +kernel⟩

/-- A second address under the same sequence number is merged by the registry only. -/
theorem merged_record_is_not_stored :
    let s := ((new "n").apply (.add "p" { addresses := ["x"], sequence := 1 })).apply
      (.add "p" { addresses := ["y"], sequence := 1 })
    s.registry.record "p" = some { addresses := ["x", "y"], sequence := 1 } ∧
      s.stored.get "p" = some { addresses := ["y"], sequence := 1 } ∧
      s.routes.get "p" = some { addresses := ["y"], sequence := 1 } ∧
      (reload "n" s.stored.entries).record "p" = some { addresses := ["y"], sequence := 1 } := by
  decide +kernel

end ServerPeers

end Proxyma.Peers
