import Proxyma.Peers.Registry

/-!
# Gossip about a peer

A peer announces itself with `HandleAnnounce`; other peers pass its record on with
`HandleAddPeer`.  Both handlers first read the registered record and then call `AddPeer`,
so other messages can come in between.  For a message about a registered peer that does
not come from the peer itself, `HandleAddPeer` takes the sequence number down to the one
it has read and keeps the sponsor flag, so the message can only add addresses.  Two ways
around this remain: a message about another peer with the primary address of this one
evicts it, and a message about a peer that was not registered when the handler looked may
carry any sequence number.

`Harmless` rules out the two.  The argument rests on the order `Follows` of records: what
a handler has read is followed by what is registered when it goes on, and every message
leads to a record that follows the one before.  What gossip may still do to later
announces is limited by `Bounded`: the registered sequence number comes from the announces
of the peer, or is at most what gossip may carry.
-/

namespace Proxyma.Peers

open Keyed

/-- A message about peers: an announce of the peer `p` in question, with the address the
node perceives if it can make one out, or a record that an authenticated peer sends. -/
inductive Message
  | announce (record : AddressRecord) (perceivedAddr : Option String)
  | gossip (sender id : String) (address : AddressRecord)
  deriving DecidableEq

namespace PeerRegistry

/-! ## The handlers -/

/-- The checks of `HandleAnnounce` on the body of the request. -/
def validAnnounce (id : String) (record : AddressRecord) : Bool :=
  id ≠ "" ∧ record.addresses ≠ [] ∧ record.primary ≠ some ""

/-- The record that `HandleAnnounce` registers: with the perceived address, and with the
sponsor flag of the record it has read. -/
def announced (existing : Option AddressRecord) (record : AddressRecord)
    (perceivedAddr : Option String) : AddressRecord :=
  { record with
    addresses := match perceivedAddr with
      | none => record.addresses
      | some addr => if addr ∈ record.addresses then record.addresses
          else record.addresses ++ [addr]
    isSponsor := (existing.map AddressRecord.isSponsor).getD false }

/-- The record that `HandleAddPeer` registers. -/
def passedOn (existing : Option AddressRecord) (cn id : String) (address : AddressRecord) :
    AddressRecord :=
  match existing with
  | some existing =>
    if cn ≠ id then
      { address with
        sequence := if existing.sequence < address.sequence then existing.sequence
          else address.sequence
        isSponsor := existing.isSponsor }
    else { address with isSponsor := existing.isSponsor }
  | none => { address with isSponsor := false }

/-- The peer a message is about. -/
def subject (p : String) : Message → String
  | .announce _ _ => p
  | .gossip _ id _ => id

/-- The record that the handler of a message passes to `AddPeer`. -/
def incomingRecord (seen : Option AddressRecord) : Message → AddressRecord
  | .announce record perceivedAddr => announced seen record perceivedAddr
  | .gossip sender id address => passedOn seen sender id address

/-- The messages that take part: valid announces of `p` and gossip of others. -/
def Sent (p : String) : Message → Prop
  | .announce record _ => validAnnounce p record = true
  | .gossip sender _ _ => sender ≠ p

instance (p : String) (m : Message) : Decidable (Sent p m) :=
  match m with
  | .announce record _ => inferInstanceAs (Decidable (validAnnounce p record = true))
  | .gossip sender _ _ => inferInstanceAs (Decidable (sender ≠ p))

/-- The second half of a handler that has read the record `seen`. -/
def register (p : String) (pr : PeerRegistry) (m : Message) (seen : Option AddressRecord) :
    PeerRegistry :=
  pr.added (subject p m) (incomingRecord seen m)

/-- A handler that is not interrupted. -/
def handle (p : String) (pr : PeerRegistry) (m : Message) : PeerRegistry :=
  pr.register p m (pr.record (subject p m))

/-- A registry and the handlers that are under way, with the record each has read. -/
structure Traffic where
  registry : PeerRegistry
  pending : List (Message × Option AddressRecord)

/-! ## What a message must not do -/

/-- A message that leaves `p` alone when its handler goes on.  Gossip about another peer
does not have the primary address of `p`.  Gossip about `p` carries at most `bound` if `p`
is not registered, and otherwise at most the registered number, unless the handler saw `p`
registered; and it does not give a first address to a registered `p`.  And `p` announces
itself with at least `bound`. -/
def Harmless (p : String) (bound : ℤ) (pr : PeerRegistry) (seen : Option AddressRecord) :
    Message → Prop
  | .announce record _ => bound ≤ record.sequence
  | .gossip _ id address =>
    if id = p then
      match pr.record p with
      | none => address.sequence ≤ bound
      | some existing => (seen.isSome ∨ address.sequence ≤ existing.sequence) ∧
          (existing.primary.isSome ∨ address.primary = none)
    else id = pr.nodeID ∨ ∀ existing, pr.record p = some existing →
      existing.primary.isSome → address.primary ≠ existing.primary

/-- The runs in which all messages leave `p` alone, with the messages that were
registered, the last one first. -/
inductive Run (p : String) (bound : ℤ) (start : PeerRegistry) : List Message → Traffic → Prop
  | start : Run p bound start [] ⟨start, []⟩
  | read {ms : List Message} {t : Traffic} (m : Message) : Run p bound start ms t → Sent p m →
      Run p bound start ms ⟨t.registry, (m, t.registry.record (subject p m)) :: t.pending⟩
  | register {ms : List Message} {t : Traffic} {m : Message} {seen : Option AddressRecord}
      (before after : List (Message × Option AddressRecord)) :
      Run p bound start ms t → t.pending = before ++ (m, seen) :: after →
      Harmless p bound t.registry seen m →
      Run p bound start (m :: ms) ⟨t.registry.register p m seen, before ++ after⟩

/-- What `p` is promised of the next message: gossip neither unregisters it nor changes
its primary address or its sponsor flag, and an announce that is not older than those
before is recorded with all its addresses. -/
def Promise (p : String) (start : PeerRegistry) (ms : List Message) (pr after : PeerRegistry) :
    Message → Prop
  | .gossip _ _ _ => ∀ r, pr.record p = some r →
      ∃ r', after.record p = some r' ∧ r'.primary = r.primary ∧ r'.isSponsor = r.isSponsor
  | .announce record _ =>
    (∀ r, start.record p = some r → r.sequence ≤ record.sequence) →
    (∀ earlier perceived, .announce earlier perceived ∈ ms →
      earlier.sequence ≤ record.sequence) →
    ∃ r', after.record p = some r' ∧ ∀ a ∈ record.addresses, a ∈ r'.addresses

/-! ## The order of records -/

/-- A record with the same sponsor flag that is not older; a peer that was not registered
is no sponsor. -/
def Follows (old new : Option AddressRecord) : Prop :=
  match old with
  | none => ∀ r, new = some r → r.isSponsor = false
  | some e => ∃ r, new = some r ∧ e.sequence ≤ r.sequence ∧ r.isSponsor = e.isSponsor

theorem Follows.refl (old : Option AddressRecord) : Follows old old := by
  cases old with
  | none =>
    intro r hr
    cases hr
  | some e => exact ⟨e, rfl, le_rfl, rfl⟩

theorem Follows.trans {a b c : Option AddressRecord} (hab : Follows a b) (hbc : Follows b c) :
    Follows a c := by
  cases a with
  | none =>
    intro r hr
    rcases b with _ | e
    · exact hbc r hr
    obtain ⟨r', hr', -, hflag⟩ := hbc
    cases hr'.symm.trans hr
    rw [hflag]
    exact hab e rfl
  | some e =>
    obtain ⟨r, rfl, hle, hflag⟩ := hab
    obtain ⟨r', hr', hle', hflag'⟩ := hbc
    exact ⟨r', hr', hle.trans hle', hflag'.trans hflag⟩

/-- The flag that a handler takes from what it has read is the registered one. -/
theorem Follows.flag {seen : Option AddressRecord} {r : AddressRecord}
    (h : Follows seen (some r)) : (seen.map AddressRecord.isSponsor).getD false = r.isSponsor := by
  rcases seen with _ | e
  · exact (h r rfl).symm
  obtain ⟨r', hr', -, hflag⟩ := h
  cases hr'
  exact hflag.symm

theorem Follows.eq_none {seen : Option AddressRecord} (h : Follows seen none) : seen = none := by
  rcases seen with _ | e
  · rfl
  obtain ⟨r, hr, -⟩ := h
  cases hr

theorem accept_fields {existing : Option AddressRecord} {incoming stored : AddressRecord}
    (h : accept existing incoming = some stored) :
    stored.sequence = incoming.sequence ∧ stored.isSponsor = incoming.isSponsor := by
  unfold accept at h
  cases existing with
  | none =>
    cases h
    exact ⟨rfl, rfl⟩
  | some existing =>
    dsimp only at h
    split_ifs at h <;> (obtain rfl := Option.some.inj h; exact ⟨rfl, rfl⟩)

/-! ## One message -/

section Steps

variable {p : String} {bound : ℤ} {pr : PeerRegistry} {seen : Option AddressRecord}
variable {incoming address r : AddressRecord} {sender : String}

theorem isSponsor_incomingRecord (m : Message) : (incomingRecord seen m).isSponsor =
    (seen.map AddressRecord.isSponsor).getD false := by
  cases m with
  | announce record perceivedAddr => rfl
  | gossip sender id address =>
    rcases seen with _ | existing
    · rfl
    simp only [incomingRecord, passedOn]
    split_ifs <;> rfl

/-- A record about `p` with the flag that was read leads to one that follows. -/
theorem follows_added (hp : p ≠ pr.nodeID) (hseen : Follows seen (pr.record p))
    (hflag : incoming.isSponsor = (seen.map AddressRecord.isSponsor).getD false) :
    Follows (pr.record p) ((pr.added p incoming).record p) := by
  rw [record_addPeer_self hp]
  cases haccept : accept (pr.record p) incoming with
  | none =>
    exact Follows.refl _
  | some stored =>
    obtain ⟨-, hstored⟩ := accept_fields haccept
    cases hr : pr.record p with
    | none =>
      intro r' hr'
      cases hr'
      rw [hr] at hseen
      rw [hstored, hflag, hseen.eq_none]
      rfl
    | some r =>
      rw [hr] at haccept hseen
      refine ⟨stored, rfl, (accept_grows haccept).1, ?_⟩
      rw [hstored, hflag, hseen.flag]

/-- Gossip about another peer does not touch this one, unless it has its address. -/
theorem record_gossip_other {id : String} (hid : id ≠ p)
    (hharmless : id = pr.nodeID ∨ ∀ existing, pr.record p = some existing →
      existing.primary.isSome → address.primary ≠ existing.primary) :
    (pr.register p (.gossip sender id address) seen).record p = pr.record p := by
  have hprimary : (passedOn seen sender id address).primary = address.primary := by
    unfold passedOn
    split
    · split_ifs <;> rfl
    · rfl
  change (pr.added id (passedOn seen sender id address)).record p = _
  rw [record_addPeer_other (Ne.symm hid), if_neg]
  intro hevicted
  obtain ⟨hself, -, r, hr, hsame, hsome⟩ := mem_evicted.1 hevicted
  rw [hprimary] at hsame hsome
  refine (hharmless.resolve_left hself) r hr ?_ hsame.symm
  rwa [hsame]

/-- Every message that leaves `p` alone leads to a record of `p` that follows. -/
theorem follows_register (hp : p ≠ pr.nodeID) {m : Message}
    (hseen : subject p m = p → Follows seen (pr.record p))
    (hharmless : Harmless p bound pr seen m) :
    Follows (pr.record p) ((pr.register p m seen).record p) := by
  by_cases hsubject : subject p m = p
  · unfold register
    rw [hsubject]
    exact follows_added hp (hseen hsubject) (isSponsor_incomingRecord m)
  · cases m with
    | announce record perceivedAddr => exact absurd rfl hsubject
    | gossip sender id address =>
      have hid : id ≠ p := hsubject
      simp only [Harmless, if_neg hid] at hharmless
      rw [record_gossip_other hid hharmless]
      exact Follows.refl _

/-- A handler of gossip about a registered peer goes on with at most its sequence number. -/
theorem sequence_passedOn (hsender : sender ≠ p) (hseen : Follows seen (some r))
    (hlow : seen.isSome ∨ address.sequence ≤ r.sequence) :
    (passedOn seen sender p address).sequence ≤ r.sequence := by
  cases seen with
  | none =>
    refine hlow.resolve_left ?_
    simp
  | some e =>
    obtain ⟨r', hr', hle, -⟩ := hseen
    cases hr'
    simp only [passedOn, hsender, ne_eq, not_false_eq_true, if_true]
    split_ifs <;> omega

/-- A record that is not newer leaves the primary address of a peer that has one. -/
theorem primary_added (hp : p ≠ pr.nodeID) (hr : pr.record p = some r)
    (hle : incoming.sequence ≤ r.sequence) (hprimary : r.primary.isSome ∨ incoming.primary = none) :
    ∃ r', (pr.added p incoming).record p = some r' ∧ r'.primary = r.primary := by
  rw [record_addPeer_self hp, hr]
  rcases hle.lt_or_eq with hless | hsame
  · exact ⟨r, by simp [accept, hless], rfl⟩
  refine ⟨_, by simp [accept, hsame]; rfl, ?_⟩
  change (mergeAddresses r.addresses incoming.addresses).head? = r.primary
  rw [head?_mergeAddresses]
  rcases hprimary with hsome | hnone
  · exact Option.or_of_isSome hsome
  · have hnothing : incoming.addresses.head? = none := hnone
    rw [hnothing, Option.or_none]
    rfl

theorem primary_gossip (hp : p ≠ pr.nodeID) {id : String} (hsender : sender ≠ p)
    (hr : pr.record p = some r) (hseen : id = p → Follows seen (pr.record p))
    (hharmless : Harmless p bound pr seen (.gossip sender id address)) :
    ∃ r', (pr.register p (.gossip sender id address) seen).record p = some r' ∧
      r'.primary = r.primary := by
  by_cases hid : id = p
  · subst hid
    have hfollows := hseen rfl
    simp only [Harmless, if_true, hr] at hharmless
    rw [hr] at hfollows
    refine primary_added hp hr (sequence_passedOn hsender hfollows hharmless.1) ?_
    refine hharmless.2.imp_right fun hnone => ?_
    rcases seen with _ | e
    · exact hnone
    simp only [incomingRecord, passedOn, hsender, ne_eq, not_false_eq_true, if_true]
    exact hnone
  · simp only [Harmless, if_neg hid] at hharmless
    exact ⟨r, by rw [record_gossip_other hid hharmless, hr], rfl⟩

/-- The registered sequence number of a peer is at most `n`. -/
def Bounded (p : String) (n : ℤ) (pr : PeerRegistry) : Prop :=
  ∀ r, pr.record p = some r → r.sequence ≤ n

theorem Bounded.added {n : ℤ} (hp : p ≠ pr.nodeID) (h : Bounded p n pr)
    (hincoming : incoming.sequence ≤ n) : Bounded p n (pr.added p incoming) := by
  intro r hr
  rw [record_addPeer_self hp] at hr
  cases haccept : accept (pr.record p) incoming with
  | none =>
    rw [haccept, Option.none_or] at hr
    exact h r hr
  | some stored =>
    rw [haccept, Option.some_or] at hr
    rwa [← Option.some.inj hr, (accept_fields haccept).1]

/-- A message keeps the bound, if the bound allows for what it carries. -/
theorem Bounded.register {n : ℤ} (hp : p ≠ pr.nodeID) (hbound : bound ≤ n)
    (h : Bounded p n pr) {m : Message} (hsent : Sent p m)
    (hseen : subject p m = p → Follows seen (pr.record p))
    (hharmless : Harmless p bound pr seen m)
    (hannounce : ∀ record perceived, m = .announce record perceived → record.sequence ≤ n) :
    Bounded p n (pr.register p m seen) := by
  cases m with
  | announce record perceivedAddr => exact h.added hp (hannounce record perceivedAddr rfl)
  | gossip sender id address =>
    by_cases hid : id = p
    · subst hid
      have hfollows := hseen rfl
      refine h.added hp ?_
      cases hr : pr.record id with
      | none =>
        rw [hr] at hfollows
        simp only [Harmless, if_true, hr] at hharmless
        rw [hfollows.eq_none]
        exact le_trans hharmless hbound
      | some r =>
        rw [hr] at hfollows
        simp only [Harmless, if_true, hr] at hharmless
        exact (sequence_passedOn hsent hfollows hharmless.1).trans (h r hr)
    · simp only [Harmless, if_neg hid] at hharmless
      intro r hr
      rw [record_gossip_other hid hharmless] at hr
      exact h r hr

/-- An announce that is not older than the registered record is recorded. -/
theorem record_announce (hp : p ≠ pr.nodeID) {record : AddressRecord}
    {perceivedAddr : Option String} (hbounded : Bounded p record.sequence pr) :
    ∃ r', (pr.register p (.announce record perceivedAddr) seen).record p = some r' ∧
      ∀ a ∈ record.addresses, a ∈ r'.addresses := by
  set incoming := announced seen record perceivedAddr with hincoming
  have haddresses : ∀ a ∈ record.addresses, a ∈ incoming.addresses := by
    intro a ha
    rw [hincoming]
    unfold announced
    split
    · exact ha
    · split_ifs
      · exact ha
      · exact List.mem_append_left _ ha
  have hsequence : incoming.sequence = record.sequence := rfl
  change ∃ r', (pr.added p incoming).record p = some r' ∧ _
  rw [record_addPeer_self hp]
  rcases hr : pr.record p with _ | existing
  · exact ⟨incoming, rfl, haddresses⟩
  have hle : ¬incoming.sequence < existing.sequence := by
    exact not_lt.2 (hbounded existing hr)
  simp only [accept, hle, if_false]
  split_ifs
  · exact ⟨_, rfl, fun a ha => mem_mergeAddresses.2 (.inr (haddresses a ha))⟩
  · exact ⟨_, rfl, haddresses⟩

end Steps

/-! ## Runs -/

/-- What holds along a run: handlers under way have read something that the registered
record of `p` follows, and the registered sequence number is accounted for. -/
structure Sound (p : String) (bound : ℤ) (start : PeerRegistry) (ms : List Message)
    (t : Traffic) : Prop where
  nodeID : t.registry.nodeID = start.nodeID
  sent : ∀ m seen, (m, seen) ∈ t.pending → Sent p m
  follows : ∀ m seen, (m, seen) ∈ t.pending → subject p m = p →
    Follows seen (t.registry.record p)
  bounded : ∀ n, bound ≤ n → Bounded p n start →
    (∀ record perceived, .announce record perceived ∈ ms → record.sequence ≤ n) →
    Bounded p n t.registry

theorem Run.sound {p : String} {bound : ℤ} {start : PeerRegistry} (hp : p ≠ start.nodeID)
    {ms : List Message} {t : Traffic} (h : Run p bound start ms t) :
    Sound p bound start ms t := by
  induction h with
  | start =>
    refine ⟨rfl, ?_, ?_, fun n _ hstart _ => hstart⟩
    · intro m seen hmem
      exact absurd hmem List.not_mem_nil
    · intro m seen hmem
      exact absurd hmem List.not_mem_nil
  | read m _ hsent ih =>
    refine ⟨ih.nodeID, ?_, ?_, ih.bounded⟩
    · intro m' seen hmem
      rcases List.mem_cons.1 hmem with hnew | hold
      · cases hnew
        exact hsent
      · exact ih.sent m' seen hold
    · intro m' seen hmem hsubject
      rcases List.mem_cons.1 hmem with hnew | hold
      · cases hnew
        rw [hsubject]
        exact Follows.refl _
      · exact ih.follows m' seen hold hsubject
  | @register ms t m seen before after _ hpending hharmless ih =>
    have hself : p ≠ t.registry.nodeID := by rwa [ih.nodeID]
    have hmem : (m, seen) ∈ t.pending := by simp [hpending]
    have hother : ∀ e ∈ before ++ after, e ∈ t.pending := by
      intro e he
      rw [hpending]
      rcases List.mem_append.1 he with h | h
      · exact List.mem_append_left _ h
      · exact List.mem_append_right _ (List.mem_cons_of_mem _ h)
    have hstep := follows_register hself (ih.follows m seen hmem) hharmless
    refine ⟨nodeID_added.trans ih.nodeID, ?_, ?_, ?_⟩
    · intro m' seen' hmem'
      exact ih.sent m' seen' (hother _ hmem')
    · intro m' seen' hmem' hsubject
      exact (ih.follows m' seen' (hother _ hmem') hsubject).trans hstep
    intro n hn hstart hannounces
    refine (ih.bounded n hn hstart fun record perceived h =>
      hannounces record perceived (List.mem_cons_of_mem _ h)).register hself hn
        (ih.sent m seen hmem) (ih.follows m seen hmem) hharmless ?_
    rintro record perceived rfl
    exact hannounces record perceived List.mem_cons_self

/-- In a run whose messages all leave `p` alone, gossip does not override `p`. -/
theorem gossip_keeps_promise (p : String) (bound : ℤ) (start : PeerRegistry)
    (hp : p ≠ start.nodeID) (ms : List Message) (t : Traffic) (hrun : Run p bound start ms t)
    (m : Message) (seen : Option AddressRecord) (hmem : (m, seen) ∈ t.pending)
    (hharmless : Harmless p bound t.registry seen m) :
    Promise p start ms t.registry (t.registry.register p m seen) m := by
  have hsound := hrun.sound hp
  have hself : p ≠ t.registry.nodeID := by rwa [hsound.nodeID]
  cases m with
  | gossip sender id address =>
    intro r hr
    have hseen := hsound.follows _ seen hmem
    obtain ⟨r', hr', hprimary⟩ :=
      primary_gossip hself (hsound.sent _ seen hmem) hr hseen hharmless
    have hfollows := follows_register hself hseen hharmless
    rw [hr] at hfollows
    obtain ⟨r'', hr'', -, hflag⟩ := hfollows
    cases hr'.symm.trans hr''
    exact ⟨r', hr', hprimary, hflag⟩
  | announce record perceivedAddr =>
    intro hstart hearlier
    exact record_announce hself (hsound.bounded record.sequence hharmless hstart hearlier)

/-- A peer announces itself, another one passes the record on with a higher sequence
number and another address, and the peer announces itself again while that is under way. -/
theorem gossip_keeps_promise_passed_on :
    let first : Message := .announce { addresses := ["x"], sequence := 1 } none
    let again : Message := .announce { addresses := ["y"], sequence := 1 } none
    let gossip : Message := .gossip "q" "p" { addresses := ["z"], sequence := 9 }
    let pr := handle "p" (new "n") first
    let seen := pr.record "p"
    let t : Traffic := ⟨pr.register "p" again seen, [(gossip, seen)]⟩
    Run "p" 0 (new "n") [again, first] t ∧ Harmless "p" 0 t.registry seen gossip ∧
      Promise "p" (new "n") [again, first] t.registry (t.registry.register "p" gossip seen) gossip ∧
      (t.registry.register "p" gossip seen).record "p" =
        some { addresses := ["x", "y", "z"], sequence := 1 } := by
  intro first again gossip pr seen t
  have hone : (0 : ℤ) ≤ 1 := by decide
  have hregistered : t.registry.record "p" = some { addresses := ["x", "y"], sequence := 1 } := by
    decide +kernel
  have hrun : Run "p" 0 (new "n") [again, first] t := by
    have hfirst : Run "p" 0 (new "n") [first] ⟨pr, []⟩ :=
      .register [] [] (.read first .start (by decide)) rfl hone
    exact .register [] [(gossip, seen)]
      (.read again (.read gossip hfirst (by decide)) (by decide)) rfl hone
  have hharmless : Harmless "p" 0 t.registry seen gossip := by
    simp only [gossip, Harmless, if_true, hregistered]
    exact ⟨.inl (by decide +kernel), .inl rfl⟩
  exact ⟨hrun, hharmless, gossip_keeps_promise "p" 0 (new "n") (by decide) _ t hrun gossip seen
    List.mem_cons_self hharmless, by decide +kernel⟩

/-- Gossip about `z` with the address of `p` unregisters `p`; gossip about `p` before its
first announce keeps the address of the announce out; and gossip whose handler looked
before that announce takes the primary address over. -/
theorem gossip_overrides_owner :
    let announce : Message := .announce { addresses := ["x"], sequence := 1 } none
    let gossip : Message := .gossip "q" "p" { addresses := ["y"], sequence := 9 }
    let registered := handle "p" (new "n") announce
    registered.record "p" = some { addresses := ["x"], sequence := 1 } ∧
      (handle "p" registered (.gossip "q" "z" { addresses := ["x"], sequence := 1 })).record "p" =
        none ∧
      (handle "p" (handle "p" (new "n") gossip) announce).record "p" =
        some { addresses := ["y"], sequence := 9 } ∧
      (registered.register "p" gossip ((new "n").record "p")).record "p" =
        some { addresses := ["y"], sequence := 9 } := by
  decide +kernel

end PeerRegistry

end Proxyma.Peers
