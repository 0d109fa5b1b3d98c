import Proxyma.Lib.Text
import Proxyma.Peers.Registry
import Proxyma.Peers.Sessions

/-!
# Removed peers stay disconnected

`P2PRoundTripper` keeps the routes to peers and the QUIC manager that requests use
at the moment.  Removing a route blocks the peer in that manager, so that late
handshakes and dials cannot publish a session for it; adding a route allows it again.

Which peers are blocked is a matter of the manager, and `SetQUICManager` hands over
nothing: a manager that is attached after a removal has never heard of it.  As long
as every manager that is attached blocks the peers that are removed at that moment
(`Attachable`), a removed peer is blocked in whichever manager is current, and a
manager has no session for a blocked peer.

Every operation of the router runs under its lock and is one step; dials, accepts
and whatever else happens to a manager are steps of that manager.

The TURN manager is told the addresses of a peer when its route is added and when it
is removed.  It does not count how many peers have an address, and it is not told that
an address was replaced, so `Separate` says which calls it can follow.
-/

namespace Proxyma.Routing

open Keyed Peers Sessions

/-! ## The router -/

/-- `prewarmAttempt`; `id` tells two attempts apart. -/
structure PrewarmAttempt where
  id : ℕ
  qm : ℕ
  generation : UInt64
  deriving DecidableEq

/-- The part of `P2PRoundTripper` that is about routes and managers.  Managers are
numbered; `nextAttempt` is the number of attempts made so far. -/
structure P2PRoundTripper where
  routes : Bucket String AddressRecord
  sponsorAddress : String
  qm : Option ℕ
  prewarms : Bucket String PrewarmAttempt
  routeGeneration : Bucket String UInt64
  closed : Bool
  nextAttempt : ℕ

/-- The last operation on the route to a peer. -/
inductive RouteOp
  | updated
  | removed
  deriving DecidableEq

/-- A router, the managers there are, and the prewarm goroutines with their
peers. -/
structure Host where
  router : P2PRoundTripper
  managers : ℕ → Manager
  prewarming : List (String × PrewarmAttempt)
  lastRoute : String → Option RouteOp

/-- A router without a manager. -/
def Host.new : Host where
  router := ⟨.empty, "", none, .empty, .empty, false, 0⟩
  managers := fun _ => Manager.new
  prewarming := []
  lastRoute := fun _ => none

/-- `FirstQUICAddr`, with `ParseQUICAddr`. -/
def firstQUICAddr (addrs : List String) : Option String :=
  addrs.find? fun addr => Text.hasPrefix addr "quic://" && addr ≠ "quic://"

namespace Host

/-- A section of one of the managers. -/
def onManager (s : Host) (i : ℕ) (change : QUICManager → QUICManager) : Host :=
  { s with
    managers := Function.update s.managers i ⟨change (s.managers i).qm, (s.managers i).tasks⟩ }

/-- The next generation of a route. -/
def bump (generations : Bucket String UInt64) (peerID : String) : Bucket String UInt64 :=
  generations.put peerID ((generations.get peerID).getD 0 + 1)

/-- `UpdatePeerRoute`, with `newPrewarmAttemptLocked`; `publicUDP` is what
`PublicUDPAddress` returns. -/
def updatePeerRoute (s : Host) (peerID : String) (record : AddressRecord) (publicUDP : String) :
    Host :=
  let s := { s with lastRoute := Function.update s.lastRoute peerID (some .updated) }
  if s.router.closed then s
  else
    let router := { s.router with
      prewarms := s.router.prewarms.erase peerID
      routeGeneration := bump s.router.routeGeneration peerID
      routes := s.router.routes.put peerID record }
    match router.qm with
    | none => { s with router := router }
    | some i =>
      let s := onManager { s with router := router } i fun qm => qm.allowPeerSessions peerID
      if s.router.sponsorAddress ≠ "" ∧ publicUDP ≠ "" ∧
          (firstQUICAddr record.addresses).isSome ∧
          (s.managers i).qm.sessions.get peerID = none then
        let attempt : PrewarmAttempt :=
          ⟨s.router.nextAttempt, i, (s.router.routeGeneration.get peerID).getD 0⟩
        { s with
          router := { s.router with
            prewarms := s.router.prewarms.put peerID attempt
            nextAttempt := s.router.nextAttempt + 1 }
          prewarming := (peerID, attempt) :: s.prewarming }
      else s

/-- `BlockPeerSessions` of a manager, if there is one. -/
def block (s : Host) (qm : Option ℕ) (peerID : String) : Host :=
  match qm with
  | none => s
  | some i => s.onManager i fun qm => qm.blockPeerSessions peerID

def removePeerRoute (s : Host) (peerID : String) : Host :=
  let removed := block { s with
    lastRoute := Function.update s.lastRoute peerID (some .removed)
    router := { s.router with
      prewarms := s.router.prewarms.erase peerID
      routes := s.router.routes.erase peerID
      routeGeneration := bump s.router.routeGeneration peerID } } s.router.qm peerID
  match s.router.prewarms.get peerID with
  | none => removed
  | some attempt =>
    if some attempt.qm ≠ s.router.qm then removed.block (some attempt.qm) peerID else removed

def setQUICManager (s : Host) (qm : Option ℕ) : Host :=
  if s.router.closed then s
  else if s.router.qm = qm then s
  else
    { s with router := { s.router with
        qm := qm
        prewarms := .empty
        routeGeneration := s.router.prewarms.keys.foldl bump s.router.routeGeneration } }

/-- The end of `prewarmConnection`, with the session that `InitiateHolePunch` has
returned. -/
def prewarmed (s : Host) (peerID : String) (attempt : PrewarmAttempt) (session : Option Conn) :
    Host :=
  let s := if s.router.prewarms.get peerID = some attempt then
      { s with router := { s.router with prewarms := s.router.prewarms.erase peerID } }
    else s
  if !s.router.routes.has peerID then s.block (some attempt.qm) peerID
  else
    match session with
    | none => s
    | some conn =>
      if (s.router.routeGeneration.get peerID).getD 0 ≠ attempt.generation then
        s.onManager attempt.qm fun qm => qm.closeSessionIf peerID conn
      else s

/-- `Close`, up to where it waits for the prewarm goroutines. -/
def close (s : Host) : Host :=
  { s with router := { s.router with closed := true, prewarms := .empty } }

/-- A step of a manager that blocks and allows nobody. -/
def Aside (m m' : Manager) : Prop :=
  Manager.Step m m' ∧ m'.qm.blockedPeers = m.qm.blockedPeers

/-- The steps of a host.  `attach` says which managers may be attached; only the
router blocks and allows peers. -/
inductive Step (attach : Host → Option ℕ → Prop) : Host → Host → Prop
  | updatePeerRoute {s : Host} (peerID : String) (record : AddressRecord) (publicUDP : String) :
      Step attach s (s.updatePeerRoute peerID record publicUDP)
  | removePeerRoute {s : Host} (peerID : String) : Step attach s (s.removePeerRoute peerID)
  | setQUICManager {s : Host} (qm : Option ℕ) (hqm : attach s qm) :
      Step attach s (s.setQUICManager qm)
  | prewarmed {s : Host} {before after : List (String × PrewarmAttempt)} {peerID : String}
      {attempt : PrewarmAttempt} (session : Option Conn)
      (hprewarming : s.prewarming = before ++ (peerID, attempt) :: after) :
      Step attach s ({ s with prewarming := before ++ after }.prewarmed peerID attempt session)
  | updateSponsorAddress {s : Host} (addr : String) :
      Step attach s { s with router := { s.router with sponsorAddress := addr } }
  | close {s : Host} : Step attach s s.close
  | manager {s : Host} {i : ℕ} {m : Manager} (hstep : Aside (s.managers i) m) :
      Step attach s { s with managers := Function.update s.managers i m }

end Host

/-- A manager that blocks every peer that is removed at the moment. -/
def Attachable (s : Host) (qm : Option ℕ) : Prop :=
  ∀ i, qm = some i → ∀ peerID, s.lastRoute peerID = some .removed →
    (s.managers i).qm.blockedPeers.has peerID = true

/-! ## The invariant -/

/-- Managers are sound, and the current one blocks the removed peers. -/
structure Host.Sound (s : Host) : Prop where
  managers : ∀ i, (s.managers i).Sound
  removed : ∀ peerID i, s.lastRoute peerID = some .removed → s.router.qm = some i →
    (s.managers i).qm.blockedPeers.has peerID = true

namespace Host

variable {s : Host} {peerID : String}

theorem sound_onManager (hmanagers : ∀ i, (s.managers i).Sound) {i : ℕ}
    {change : QUICManager → QUICManager}
    (hchange : Manager.Step (s.managers i) ⟨change (s.managers i).qm, (s.managers i).tasks⟩)
    (j : ℕ) : ((s.onManager i change).managers j).Sound := by
  simp only [onManager, Function.update_apply]
  split_ifs
  · exact (hmanagers i).step hchange
  · exact hmanagers j

theorem blocked_onManager {i : ℕ} {change : QUICManager → QUICManager} {other : String} {j : ℕ}
    (hchange : (s.managers i).qm.blockedPeers.has other = true →
      (change (s.managers i).qm).blockedPeers.has other = true)
    (h : (s.managers j).qm.blockedPeers.has other = true) :
    ((s.onManager i change).managers j).qm.blockedPeers.has other = true := by
  simp only [onManager, Function.update_apply]
  split_ifs with hj
  · subst hj
    exact hchange h
  · exact h

theorem has_block (qm : QUICManager) {other : String}
    (h : other = peerID ∨ qm.blockedPeers.has other = true) :
    (qm.blockPeerSessions peerID).blockedPeers.has other = true := by
  simp only [QUICManager.blockPeerSessions, Bucket.has, Bucket.get_put]
  split_ifs with heq
  · rfl
  · exact h.resolve_left heq

theorem Sound.block (hs : s.Sound) (qm : Option ℕ) : (s.block qm peerID).Sound := by
  rcases qm with _ | i
  · exact hs
  simp only [Host.block]
  refine ⟨sound_onManager hs.managers (.blockPeerSessions peerID), ?_⟩
  intro other j hremoved hcurrent
  exact blocked_onManager (fun h => has_block _ (.inr h))
    (hs.removed other j hremoved hcurrent)

theorem Sound.closeSessionIf (hs : s.Sound) (i : ℕ) (conn : Conn) :
    (s.onManager i fun qm => qm.closeSessionIf peerID conn).Sound where
  managers := sound_onManager hs.managers (.closeSessionIf peerID conn)
  removed := fun other j hremoved hqm => by
    refine blocked_onManager (fun h => ?_) (hs.removed other j hremoved hqm)
    simp only [QUICManager.closeSessionIf]
    split_ifs <;> exact h

/-- Changing what neither the managers nor the removed peers depend on. -/
theorem Sound.router (hs : s.Sound) {router : P2PRoundTripper}
    (hqm : router.qm = s.router.qm) (prewarming : List (String × PrewarmAttempt)) :
    Sound { s with router := router, prewarming := prewarming } where
  managers := hs.managers
  removed := fun other j hremoved hcurrent => hs.removed other j hremoved (hqm ▸ hcurrent)

theorem Sound.updated (hs : s.Sound) (peerID : String) :
    Sound { s with lastRoute := Function.update s.lastRoute peerID (some .updated) } where
  managers := hs.managers
  removed := fun other j hremoved hcurrent => by
    simp only [Function.update_apply] at hremoved
    split_ifs at hremoved
    · cases hremoved
    · exact hs.removed other j hremoved hcurrent

theorem Sound.allow (hs : s.Sound) (hroute : s.lastRoute peerID ≠ some .removed) (i : ℕ) :
    (s.onManager i fun qm => qm.allowPeerSessions peerID).Sound where
  managers := sound_onManager hs.managers (.allowPeerSessions peerID)
  removed := fun other j hremoved hqm => by
    have hne : other ≠ peerID := by
      rintro rfl
      exact hroute hremoved
    refine blocked_onManager (fun h => ?_) (hs.removed other j hremoved hqm)
    simp only [QUICManager.allowPeerSessions, Bucket.has, Bucket.get_erase, if_neg hne]
    exact h

theorem Sound.updatePeerRoute (hs : s.Sound) (peerID : String) (record : AddressRecord)
    (publicUDP : String) : (s.updatePeerRoute peerID record publicUDP).Sound := by
  have hupdated := hs.updated peerID
  have hroute : Function.update s.lastRoute peerID (some .updated) peerID ≠ some .removed := by
    rw [Function.update_self]
    decide
  simp only [Host.updatePeerRoute]
  split_ifs with hclosed
  · exact hupdated
  · split
    · refine hupdated.router ?_ s.prewarming
      rfl
    · rename_i i hqm
      have hallowed : ∀ router : P2PRoundTripper, router.qm = s.router.qm →
          (onManager { s with
            router := router
            lastRoute := Function.update s.lastRoute peerID (some .updated) } i
            fun qm => qm.allowPeerSessions peerID).Sound :=
        fun router hrouter => (hupdated.router hrouter s.prewarming).allow hroute i
      split_ifs
      · refine (hallowed _ ?_).router ?_ _ <;> rfl
      · refine hallowed _ ?_
        rfl

/-- Only the peer itself is newly removed, and the current manager blocks it. -/
theorem Sound.blockRemoved (hs : s.Sound) (peerID : String) {router : P2PRoundTripper}
    (hrouter : router.qm = s.router.qm) :
    (Host.block { s with
      lastRoute := Function.update s.lastRoute peerID (some .removed)
      router := router } s.router.qm peerID).Sound := by
  unfold Host.block
  split
  · rename_i hqm
    refine ⟨hs.managers, fun other j _ hcurrent => ?_⟩
    simp [hrouter, hqm] at hcurrent
  · rename_i i hqm
    refine ⟨?_, fun other j hlast hcurrent => ?_⟩
    · refine sound_onManager ?_ (.blockPeerSessions peerID)
      exact hs.managers
    cases hqm.symm.trans (hrouter.symm.trans hcurrent)
    simp only [onManager, Function.update_self]
    refine has_block _ ?_
    by_cases hother : other = peerID
    · exact .inl hother
    · simp only [onManager, Function.update_of_ne hother] at hlast
      exact .inr (hs.removed other i hlast hqm)

theorem Sound.removePeerRoute (hs : s.Sound) (peerID : String) :
    (s.removePeerRoute peerID).Sound := by
  have hblocked := @Sound.blockRemoved s hs peerID { s.router with
    prewarms := s.router.prewarms.erase peerID
    routes := s.router.routes.erase peerID
    routeGeneration := bump s.router.routeGeneration peerID } rfl
  simp only [Host.removePeerRoute]
  split
  · exact hblocked
  · split_ifs
    · exact hblocked.block _
    · exact hblocked

/-- A manager that blocks the removed peers may become the current one. -/
theorem Sound.setQUICManager (hs : s.Sound) {qm : Option ℕ} (hqm : Attachable s qm) :
    (s.setQUICManager qm).Sound := by
  simp only [Host.setQUICManager]
  split_ifs
  · exact hs
  · exact hs
  · exact ⟨hs.managers, fun other j hremoved hcurrent => hqm j hcurrent other hremoved⟩

theorem Sound.prewarmed (hs : s.Sound) (peerID : String) (attempt : PrewarmAttempt)
    (session : Option Conn) : (s.prewarmed peerID attempt session).Sound := by
  have hdeleted : Sound (if s.router.prewarms.get peerID = some attempt then
      { s with router := { s.router with prewarms := s.router.prewarms.erase peerID } }
    else s) := by
    split_ifs
    · refine hs.router ?_ s.prewarming
      rfl
    · exact hs
  simp only [Host.prewarmed]
  generalize (if s.router.prewarms.get peerID = some attempt then
      { s with router := { s.router with prewarms := s.router.prewarms.erase peerID } }
    else s) = s' at hdeleted
  by_cases hroute : !s'.router.routes.has peerID
  · rw [if_pos hroute]
    exact hdeleted.block _
  rw [if_neg hroute]
  rcases session with _ | conn
  · exact hdeleted
  split_ifs
  · exact hdeleted.closeSessionIf _ conn
  · exact hdeleted

theorem Sound.step {s' : Host} (hs : s.Sound) (hstep : Step Attachable s s') : s'.Sound := by
  cases hstep with
  | updatePeerRoute peerID record publicUDP => exact hs.updatePeerRoute peerID record publicUDP
  | removePeerRoute peerID => exact hs.removePeerRoute peerID
  | setQUICManager qm hqm => exact hs.setQUICManager hqm
  | prewarmed session hprewarming => exact (hs.router rfl _).prewarmed _ _ session
  | updateSponsorAddress _ | close =>
    refine hs.router ?_ s.prewarming
    rfl
  | @manager i m hmanager =>
    obtain ⟨hmanager, hblocked⟩ := hmanager
    refine ⟨fun j => ?_, fun other j hremoved hcurrent => ?_⟩ <;>
      simp only [Function.update_apply] <;> split_ifs with hj
    · exact (hs.managers i).step hmanager
    · exact hs.managers j
    · rw [hblocked]
      exact hs.removed other i hremoved (hj ▸ hcurrent)
    · exact hs.removed other j hremoved hcurrent

end Host

/-! ## Runs -/

/-- In every run in which the managers that are attached block the peers removed at
that moment, the current manager has no session for a peer whose route was removed
last. -/
theorem removed_peer_disconnected {s : Host}
    (hrun : Relation.ReflTransGen (Host.Step Attachable) Host.new s) (peerID : String)
    (hremoved : s.lastRoute peerID = some .removed) (i : ℕ) (hqm : s.router.qm = some i) :
    (s.managers i).qm.sessions.get peerID = none := by
  have hsound : s.Sound := by
    clear hremoved hqm
    induction hrun with
    | refl => exact ⟨fun _ => Manager.sound_new, fun other j hremoved => by cases hremoved⟩
    | tail _ hstep ih => exact ih.step hstep
  have hblocked := hsound.removed peerID i hremoved hqm
  rcases hsession : (s.managers i).qm.sessions.get peerID with _ | session
  · rfl
  have hunblocked := ((hsound.managers i).published peerID session hsession).2.2
  simp [hblocked] at hunblocked

theorem Host.run_manager {attach : Host → Option ℕ → Prop} (s : Host) (i : ℕ) {m : Manager}
    (hrun : Relation.ReflTransGen Host.Aside (s.managers i) m) :
    Relation.ReflTransGen (Host.Step attach) s
      { s with managers := Function.update s.managers i m } := by
  induction hrun with
  | refl => rw [Function.update_eq_self]
  | @tail a b _ hstep ih =>
    have hmanager : Host.Aside (Function.update s.managers i a i) b := by
      rwa [Function.update_self]
    have hnext := @Host.Step.manager attach
      { s with managers := Function.update s.managers i a } i b hmanager
    simp only [Function.update_idem] at hnext
    exact ih.tail hnext

/-- Node `p` greets a new manager, which publishes the session. -/
theorem accepted_by_new : ∃ m, Relation.ReflTransGen Host.Aside Manager.new m ∧
    m.qm.sessions.has "p" = true := by
  have hhello : Host.Aside Manager.new _ := ⟨.hello, rfl⟩
  have hadvance : ∀ {qm : QUICManager} {t : Task} (handshake : Option (ℕ × Option String)),
      (t.advance qm handshake).2.blockedPeers = qm.blockedPeers →
      Host.Aside ⟨qm, [t]⟩ ⟨(t.advance qm handshake).2, (t.advance qm handshake).1.toList ++ []⟩ :=
    fun handshake hblocked => ⟨@Manager.Step.advance _ [] [] _ handshake, hblocked⟩
  have hverify := (Relation.ReflTransGen.single hhello).tail (hadvance (some (0, some "p")) rfl)
  have haccept := (hverify.tail (hadvance none rfl)).tail (hadvance none rfl)
  have hset := (haccept.tail (hadvance none rfl)).tail (hadvance none rfl)
  exact ⟨_, hset, rfl⟩

/-- A peer is removed while there is no manager.  The first manager that is attached
accepts it. -/
theorem removed_peer_accepted :
    ∃ s, Relation.ReflTransGen (Host.Step fun _ _ => True) Host.new s ∧
      s.lastRoute "p" = some .removed ∧ s.router.qm = some 0 ∧
      (s.managers 0).qm.sessions.has "p" = true := by
  have hremove : Host.Step (fun _ _ => True) Host.new (Host.new.removePeerRoute "p") :=
    .removePeerRoute "p"
  have hattach := (Relation.ReflTransGen.single hremove).tail (.setQUICManager (some 0) trivial)
  obtain ⟨m, hrun, hsession⟩ := accepted_by_new
  have haccept := hattach.trans (Host.run_manager _ 0 hrun)
  refine ⟨_, haccept, rfl, rfl, ?_⟩
  simp only [Function.update_self]
  exact hsession

/-- A manager is attached, and a peer is added and removed again. -/
theorem removed_peer_disconnected_again :
    let s := ((Host.new.setQUICManager (some 0)).updatePeerRoute "p" ⟨["quic://h:1"], 0, false⟩
      "").removePeerRoute "p"
    s.lastRoute "p" = some .removed ∧ (s.managers 0).qm.sessions.get "p" = none := by
  intro s
  have hattach : Host.Step Attachable Host.new (Host.new.setQUICManager (some 0)) :=
    .setQUICManager (some 0) fun i _ peerID hremoved => by cases hremoved
  have hrun : Relation.ReflTransGen (Host.Step Attachable) Host.new s :=
    ((Relation.ReflTransGen.single hattach).tail (.updatePeerRoute "p" _ "")).tail
      (.removePeerRoute "p")
  exact ⟨rfl, removed_peer_disconnected hrun "p" rfl 0 rfl⟩

/-! ## TURN permissions -/

/-- `IPLiteralsFromAddresses`; `parseIP` is what `net.ParseIP` makes of the host of an address. -/
def ipLiteralsFromAddresses (parseIP : String → Option String) (addrs : List String) :
    List String :=
  (addrs.filterMap parseIP).eraseDups

/-- A router with an open TURN manager, of which only the desired addresses are kept. -/
structure TURNHost where
  host : Host
  desiredIPs : Finset String

/-- A call that changes a route. -/
inductive RouteCall
  | updatePeerRoute (peerID : String) (record : AddressRecord) (publicUDP : String)
  | removePeerRoute (peerID : String)

namespace TURNHost

variable (parseIP : String → Option String) (s : TURNHost)

/-- `SetPeerAddresses`. -/
def setPeerAddresses (addrs : List String) : Finset String :=
  s.desiredIPs ∪ (ipLiteralsFromAddresses parseIP addrs).toFinset

/-- `ForgetPeerAddresses`. -/
def forgetPeerAddresses (addrs : List String) : Finset String :=
  s.desiredIPs \ (ipLiteralsFromAddresses parseIP addrs).toFinset

/-- A call, with what follows it in the TURN manager. -/
def call : RouteCall → TURNHost
  | .updatePeerRoute peerID record publicUDP =>
    ⟨s.host.updatePeerRoute peerID record publicUDP,
      if s.host.router.closed then s.desiredIPs else s.setPeerAddresses parseIP record.addresses⟩
  | .removePeerRoute peerID =>
    ⟨s.host.removePeerRoute peerID, s.forgetPeerAddresses parseIP
      (((s.host.router.routes.get peerID).map AddressRecord.addresses).getD [])⟩

/-- A routed peer has an address. -/
def Announces (peerID ip : String) : Prop :=
  ∃ record, s.host.router.routes.get peerID = some record ∧
    ip ∈ ipLiteralsFromAddresses parseIP record.addresses

/-- The desired addresses are those of the routed peers. -/
def Tracks : Prop := ∀ ip, ip ∈ s.desiredIPs ↔ ∃ peerID, s.Announces parseIP peerID ip

/-- A record is replaced by one that has its addresses, but for those that another peer has, and
the peer that is removed shares none with another one. -/
def Separate : RouteCall → Prop
  | .updatePeerRoute peerID record _ => s.host.router.closed = false →
    ∀ ip, s.Announces parseIP peerID ip → ip ∈ ipLiteralsFromAddresses parseIP record.addresses ∨
      ∃ other, other ≠ peerID ∧ s.Announces parseIP other ip
  | .removePeerRoute peerID =>
    ∀ ip, s.Announces parseIP peerID ip → ∀ other, s.Announces parseIP other ip → other = peerID

end TURNHost

theorem routes_updatePeerRoute (s : Host) (peerID : String) (record : AddressRecord)
    (publicUDP : String) : (s.updatePeerRoute peerID record publicUDP).router.routes =
      if s.router.closed then s.router.routes else s.router.routes.put peerID record := by
  simp only [Host.updatePeerRoute]
  split_ifs
  · rfl
  · split
    · rfl
    · split_ifs <;> rfl

theorem routes_removePeerRoute (s : Host) (peerID : String) :
    (s.removePeerRoute peerID).router.routes = s.router.routes.erase peerID := by
  have hblock : ∀ (s : Host) qm, (s.block qm peerID).router.routes = s.router.routes := by
    intro s qm
    cases qm <;> rfl
  simp only [Host.removePeerRoute]
  split
  · rw [hblock]
  · split_ifs <;> simp only [hblock]

namespace TURNHost

variable {parseIP : String → Option String} {s : TURNHost}

theorem announces_update (hopen : s.host.router.closed = false) {peerID : String}
    {record : AddressRecord} {publicUDP other ip : String} :
    (s.call parseIP (.updatePeerRoute peerID record publicUDP)).Announces parseIP other ip ↔
      other = peerID ∧ ip ∈ ipLiteralsFromAddresses parseIP record.addresses ∨
        other ≠ peerID ∧ s.Announces parseIP other ip := by
  simp only [Announces, call, routes_updatePeerRoute, hopen]
  by_cases h : other = peerID <;> simp [h]

theorem announces_remove {peerID other ip : String} :
    (s.call parseIP (.removePeerRoute peerID)).Announces parseIP other ip ↔
      other ≠ peerID ∧ s.Announces parseIP other ip := by
  simp only [Announces, call, routes_removePeerRoute, Bucket.get_erase]
  by_cases h : other = peerID <;> simp [h]

/-- From a state that tracks the routes, a call keeps it so exactly if it separates them. -/
theorem Tracks.call_iff (hs : s.Tracks parseIP) (op : RouteCall) :
    (s.call parseIP op).Tracks parseIP ↔ s.Separate parseIP op := by
  cases op with
  | updatePeerRoute peerID record publicUDP =>
    rcases hclosed : s.host.router.closed with _ | _
    swap
    · simpa [Tracks, Announces, Separate, call, routes_updatePeerRoute, hclosed] using hs
    have hdesired : ∀ ip,
        ip ∈ (s.call parseIP (.updatePeerRoute peerID record publicUDP)).desiredIPs ↔
          (∃ other, s.Announces parseIP other ip) ∨
            ip ∈ ipLiteralsFromAddresses parseIP record.addresses := by
      intro ip
      simp [call, hclosed, setPeerAddresses, hs ip]
    simp only [Tracks, hdesired, announces_update hclosed, Separate, hclosed, forall_const]
    generalize s.Announces parseIP = A
    generalize ipLiteralsFromAddresses parseIP record.addresses = L
    clear hdesired hs
    constructor <;> grind
  | removePeerRoute peerID =>
    have hdesired : ∀ ip, ip ∈ (s.call parseIP (.removePeerRoute peerID)).desiredIPs ↔
        (∃ other, s.Announces parseIP other ip) ∧ ¬ s.Announces parseIP peerID ip := by
      intro ip
      cases hroute : s.host.router.routes.get peerID <;>
        simp [call, forgetPeerAddresses, hs ip, Announces, hroute, ipLiteralsFromAddresses]
    simp only [Tracks, hdesired, announces_remove, Separate]
    generalize s.Announces parseIP = A
    clear hdesired hs
    constructor <;> grind

/-- A host whose router has no routes yet. -/
def start (host : Host) : TURNHost :=
  ⟨{ host with router := { host.router with routes := .empty } }, ∅⟩

end TURNHost

/-- After each of a sequence of calls the desired addresses are those of the routed
peers, exactly if each of the calls separates them. -/
theorem permissions_track_iff (parseIP : String → Option String) (host : Host)
    (ops : List RouteCall) :
    (∀ n, ((ops.take n).foldl (TURNHost.call parseIP) (.start host)).Tracks parseIP) ↔
      ∀ n op, ops[n]? = some op →
        ((ops.take n).foldl (TURNHost.call parseIP) (.start host)).Separate parseIP op := by
  have hnext : ∀ n op, ops[n]? = some op → (ops.take (n + 1)).foldl (TURNHost.call parseIP)
      (.start host) = ((ops.take n).foldl (TURNHost.call parseIP) (.start host)).call parseIP op := by
    intro n op hop
    rw [List.take_add_one, hop, List.foldl_append]
    rfl
  constructor
  · intro htracks n op hop
    rw [← (htracks n).call_iff, ← hnext n op hop]
    exact htracks (n + 1)
  · intro hseparate n
    induction n with
    | zero => simp [TURNHost.Tracks, TURNHost.Announces, TURNHost.start]
    | succ n ih =>
      rcases hop : ops[n]? with _ | op
      · rwa [List.take_add_one, hop, Option.toList_none, List.append_nil]
      rw [hnext n op hop, ih.call_iff]
      exact hseparate n op hop

/-- Two peers share an address and one of them is removed; a peer gets another address. -/
theorem permissions_lost_and_left :
    let route := fun peer ip => RouteCall.updatePeerRoute peer ⟨[ip], 0, false⟩ ""
    let run := fun ops => List.foldl (TURNHost.call some) (.start .new) ops
    let shared := run [route "p" "192.0.2.1", route "q" "192.0.2.1", .removePeerRoute "q"]
    let replaced := run [route "p" "192.0.2.1", route "p" "192.0.2.2"]
    shared.host.router.routes.keys = ["p"] ∧ shared.desiredIPs = ∅ ∧
      replaced.host.router.routes.get "p" = some ⟨["192.0.2.2"], 0, false⟩ ∧
      replaced.desiredIPs = {"192.0.2.1", "192.0.2.2"} := by
  decide +kernel

end Proxyma.Routing
