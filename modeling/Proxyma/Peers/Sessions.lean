import Proxyma.Lib.Bucket

/-!
# QUIC sessions

A `QUICManager` keeps one session per peer.  Dials and accepts take the number of the
current TLS configuration before a long handshake and publish the session after it, if
the number is still current, the manager is not closed and the peer is not blocked.

`setSession` holds `tlsMu` for reading while it checks the number and writes the table, so
the sections that change the number wait for it (`Manager.Free`), but blocking a peer,
removing a session and cancelling the context do not.  It is therefore two steps, between
which a handshake task is in the stage `setting`.  What each stage knows is `Task.Knows`;
with the table it makes up the invariant `Sound`.

For an inbound connection the number is kept in `handshakeGen`, under key material that
belongs to this connection alone.
-/

namespace Proxyma.Sessions

open Keyed

/-- A connection: which one it is, the common name of the certificate it presents, and the
number of the TLS configuration that its handshake used. -/
structure Conn where
  key : ℕ
  peerCN : Option String
  established : UInt64
  deriving DecidableEq

/-- A published connection, with the number its publisher expected; `SetSession` expects
none. -/
structure Session where
  conn : Conn
  expectedGeneration : Option UInt64
  deriving DecidableEq

/-- How far `Close` has come. -/
inductive Phase
  | running
  | cancelled
  | returned
  deriving DecidableEq

/-- `QUICManager`. -/
structure QUICManager where
  tlsGeneration : UInt64
  handshakeGen : Conn → Option UInt64
  sessions : Bucket String Session
  blockedPeers : Bucket String Unit
  phase : Phase

/-- `NewQUICManager`. -/
def QUICManager.new : QUICManager := ⟨1, fun _ => none, .empty, .empty, .running⟩

/-! ## Sections of the manager -/

namespace QUICManager

/-- What `ReloadTLS` and `Close` do while they hold `tlsMu`. -/
def detach (m : QUICManager) : QUICManager :=
  { m with
    tlsGeneration := m.tlsGeneration + 1
    handshakeGen := fun _ => none
    sessions := .empty }

def closeAndRemoveSession (m : QUICManager) (peerID : String) : QUICManager :=
  { m with sessions := m.sessions.erase peerID }

def closeSessionIf (m : QUICManager) (peerID : String) (conn : Conn) : QUICManager :=
  if (m.sessions.get peerID).map Session.conn = some conn then m.closeAndRemoveSession peerID
  else m

def allowPeerSessions (m : QUICManager) (peerID : String) : QUICManager :=
  { m with blockedPeers := m.blockedPeers.erase peerID }

def blockPeerSessions (m : QUICManager) (peerID : String) : QUICManager :=
  { m with
    blockedPeers := m.blockedPeers.put peerID ()
    sessions := m.sessions.erase peerID }

end QUICManager

/-! ## Handshakes -/

/-- The stages of a dial or an accept. -/
inductive Task
  | dialing (peerID : String) (generation : UInt64)
  | greeting (generation : UInt64)
  | verified (conn : Conn)
  | accepted (conn : Conn)
  | publishing (peerID : String) (session : Session)
  | setting (peerID : String) (session : Session)

/-- A task that holds `tlsMu` for reading. -/
def Task.holdsTLS : Task → Bool
  | .setting _ _ => true
  | _ => false

def peerCNFromTLS (conn : Conn) : Option String :=
  conn.peerCN.bind fun cn => if cn = "" then none else some cn

/-- The next stage of a task, if it goes on.  `handshake` is the connection that the
network makes of a handshake under way, if it does not fail: its key and what its peer
presents. -/
def Task.advance (m : QUICManager) (handshake : Option (ℕ × Option String)) :
    Task → Option Task × QUICManager
  -- `dialSessionWithTransport`, with `VerifyTLSPeerCN`.
  | .dialing peerID generation =>
    match handshake with
    | none => (none, m)
    | some (key, peerCN) =>
      if peerCNFromTLS ⟨key, peerCN, generation⟩ = some peerID then
        (some (.publishing peerID ⟨⟨key, peerCN, generation⟩, some generation⟩), m)
      else (none, m)
  -- `VerifyConnection` of `serverConfigForClient`, up to the check of the number.
  | .greeting generation =>
    match handshake with
    | none => (none, m)
    | some (key, peerCN) =>
      if m.tlsGeneration = generation then (some (.verified ⟨key, peerCN, generation⟩), m)
      else (none, m)
  | .verified conn =>
    (some (.accepted conn),
      { m with handshakeGen := Function.update m.handshakeGen conn (some conn.established) })
  -- `handleIncomingConnection`, with `consumeHandshakeGeneration`.
  | .accepted conn =>
    match m.handshakeGen conn with
    | none => (none, m)
    | some generation =>
      let m := { m with handshakeGen := Function.update m.handshakeGen conn none }
      match peerCNFromTLS conn with
      | none => (none, m)
      | some peerID => (some (.publishing peerID ⟨conn, some generation⟩), m)
  -- `setSession`, up to where it takes `SessionsMu`.
  | .publishing peerID session =>
    if session.expectedGeneration.any fun generation => m.tlsGeneration ≠ generation then
      (none, m)
    else if m.phase ≠ .running then (none, m)
    else (some (.setting peerID session), m)
  | .setting peerID session =>
    if m.blockedPeers.has peerID then (none, m)
    else (none, { m with sessions := m.sessions.put peerID session })

/-- A manager and the handshakes under way. -/
structure Manager where
  qm : QUICManager
  tasks : List Task

/-- Nobody holds `tlsMu` for reading. -/
def Manager.Free (m : Manager) : Prop := ∀ t ∈ m.tasks, t.holdsTLS = false

/-- The steps of a manager. -/
inductive Manager.Step : Manager → Manager → Prop
  | advance {qm : QUICManager} {before after : List Task} {t : Task}
      (handshake : Option (ℕ × Option String)) :
      Step ⟨qm, before ++ t :: after⟩
        ⟨(t.advance qm handshake).2, before ++ ((t.advance qm handshake).1.toList ++ after)⟩
  | dial {m : Manager} (peerID : String) :
      Step m ⟨m.qm, .dialing peerID m.qm.tlsGeneration :: m.tasks⟩
  | hello {m : Manager} : Step m ⟨m.qm, .greeting m.qm.tlsGeneration :: m.tasks⟩
  | setSession {m : Manager} (peerID : String) (conn : Conn) :
      Step m ⟨m.qm, .publishing peerID ⟨conn, none⟩ :: m.tasks⟩
  | reloadTLS {m : Manager} (hfree : m.Free) : Step m ⟨m.qm.detach, m.tasks⟩
  | closeAndRemoveSession {m : Manager} (peerID : String) :
      Step m ⟨m.qm.closeAndRemoveSession peerID, m.tasks⟩
  | closeSessionIf {m : Manager} (peerID : String) (conn : Conn) :
      Step m ⟨m.qm.closeSessionIf peerID conn, m.tasks⟩
  | allowPeerSessions {m : Manager} (peerID : String) :
      Step m ⟨m.qm.allowPeerSessions peerID, m.tasks⟩
  | blockPeerSessions {m : Manager} (peerID : String) :
      Step m ⟨m.qm.blockPeerSessions peerID, m.tasks⟩
  | cancel {m : Manager} (hrunning : m.qm.phase = .running) :
      Step m ⟨{ m.qm with phase := .cancelled }, m.tasks⟩
  | close {m : Manager} (hcancelled : m.qm.phase = .cancelled) (hfree : m.Free) :
      Step m ⟨{ m.qm.detach with phase := .returned }, m.tasks⟩

def Manager.new : Manager := ⟨.new, []⟩

/-! ## The invariant -/

/-- A session that is what a dial or an accept may publish for a peer: it uses the number
that was expected, and the certificate is that of the peer. -/
def Session.Genuine (peerID : String) (session : Session) : Prop :=
  ∀ generation, session.expectedGeneration = some generation →
    session.conn.established = generation ∧ session.conn.peerCN = some peerID

/-- A session of the current number, if one was expected. -/
def Session.Current (qm : QUICManager) (session : Session) : Prop :=
  ∀ generation, session.expectedGeneration = some generation → generation = qm.tlsGeneration

/-- What is known at each stage. -/
def Task.Knows (qm : QUICManager) : Task → Prop
  | .publishing peerID session => session.Genuine peerID
  | .setting peerID session =>
    session.Genuine peerID ∧ session.Current qm ∧ qm.phase ≠ .returned
  | _ => True

/-- The table, the numbers of handshakes, and what the tasks know. -/
structure Manager.Sound (m : Manager) : Prop where
  published : ∀ peerID session, m.qm.sessions.get peerID = some session →
    session.Genuine peerID ∧ session.Current m.qm ∧ m.qm.blockedPeers.has peerID = false
  handshakes : ∀ conn generation, m.qm.handshakeGen conn = some generation →
    generation = conn.established
  tasks : ∀ t ∈ m.tasks, t.Knows m.qm
  closed : m.qm.phase = .returned → m.qm.sessions = .empty

theorem eq_of_peerCNFromTLS {conn : Conn} {peerID : String}
    (h : peerCNFromTLS conn = some peerID) : conn.peerCN = some peerID := by
  obtain ⟨cn, hcn, hname⟩ := Option.bind_eq_some_iff.1 h
  split_ifs at hname
  rw [hcn, hname]

variable {qm qm' : QUICManager} {t : Task} {m : Manager}

/-- Tasks know the same of a manager with the same number that has not come further in
closing. -/
theorem Task.Knows.congr (h : t.Knows qm) (hgeneration : qm'.tlsGeneration = qm.tlsGeneration)
    (hphase : qm'.phase = .returned → qm.phase = .returned) : t.Knows qm' := by
  cases t with
  | publishing peerID session => exact h
  | setting peerID session =>
    obtain ⟨hgenuine, hcurrent, hopen⟩ := h
    refine ⟨hgenuine, fun generation hexpected => ?_, fun hreturned => hopen (hphase hreturned)⟩
    rw [hgeneration]
    exact hcurrent generation hexpected
  | _ => trivial

/-- A task that does not hold `tlsMu` does not care about the manager. -/
theorem Task.Knows.of_free (h : t.Knows qm) (hfree : t.holdsTLS = false) : t.Knows qm' := by
  cases t with
  | setting peerID session => exact absurd hfree (by simp [Task.holdsTLS])
  | publishing peerID session => exact h
  | _ => trivial

/-! ## Steps -/

/-- What one stage of a task does: the number stays, the new stage knows what it should,
and the table and the numbers of handshakes are as they should be. -/
theorem Task.advance_sound {tasks : List Task} (h : Manager.Sound ⟨qm, tasks⟩) (ht : t.Knows qm)
    (handshake : Option (ℕ × Option String)) :
    Manager.Sound ⟨(t.advance qm handshake).2, (t.advance qm handshake).1.toList⟩ ∧
      (t.advance qm handshake).2.tlsGeneration = qm.tlsGeneration ∧
      (t.advance qm handshake).2.phase = qm.phase := by
  have hgo : ∀ next : Task, next.Knows qm → Manager.Sound ⟨qm, [next]⟩ := fun next hnext =>
    ⟨h.published, h.handshakes, List.forall_mem_singleton.2 hnext, h.closed⟩
  have hstop : Manager.Sound ⟨qm, []⟩ := ⟨h.published, h.handshakes, by simp, h.closed⟩
  cases t with
  | dialing peerID generation =>
    rcases handshake with _ | ⟨key, peerCN⟩
    · exact ⟨hstop, rfl, rfl⟩
    simp only [Task.advance]
    split_ifs with hcn
    · refine ⟨hgo _ fun generation' hexpected => ?_, rfl, rfl⟩
      exact ⟨Option.some.inj hexpected, eq_of_peerCNFromTLS hcn⟩
    · exact ⟨hstop, rfl, rfl⟩
  | greeting generation =>
    rcases handshake with _ | ⟨key, peerCN⟩
    · exact ⟨hstop, rfl, rfl⟩
    · simp only [Task.advance]
      split_ifs with hcurrent
      · exact ⟨hgo _ trivial, rfl, rfl⟩
      · exact ⟨hstop, rfl, rfl⟩
  | verified conn =>
    refine ⟨⟨h.published, fun conn' generation hget => ?_, List.forall_mem_singleton.2 trivial,
      h.closed⟩, rfl, rfl⟩
    simp only [Task.advance, Function.update_apply] at hget
    split_ifs at hget with hconn
    · rw [hconn, ← Option.some.inj hget]
    · exact h.handshakes conn' generation hget
  | accepted conn =>
    simp only [Task.advance]
    rcases hrecorded : qm.handshakeGen conn with _ | generation
    · exact ⟨hstop, rfl, rfl⟩
    have hgeneration := h.handshakes conn generation hrecorded
    have hconsumed : ∀ conn' generation',
        Function.update qm.handshakeGen conn none conn' = some generation' →
          generation' = conn'.established := by
      intro conn' generation' hget
      rw [Function.update_apply] at hget
      split_ifs at hget
      exact h.handshakes conn' generation' hget
    cases hcn : peerCNFromTLS conn with
    | none =>
      exact ⟨⟨h.published, hconsumed, by simp, h.closed⟩, rfl, rfl⟩
    | some peerID =>
      refine ⟨⟨h.published, hconsumed, List.forall_mem_singleton.2 fun generation' hexpected => ?_,
        h.closed⟩, rfl, rfl⟩
      rw [← Option.some.inj hexpected]
      exact ⟨hgeneration.symm, eq_of_peerCNFromTLS hcn⟩
  | publishing peerID session =>
    simp only [Task.advance]
    split_ifs with hstale hphase
    · exact ⟨hstop, rfl, rfl⟩
    · exact ⟨hstop, rfl, rfl⟩
    refine ⟨hgo _ ⟨ht, fun generation hexpected => ?_, ?_⟩, rfl, rfl⟩
    · simp only [hexpected, Option.any_some, decide_eq_true_eq, not_not] at hstale
      exact hstale.symm
    · rw [not_not.1 hphase]
      decide
  | setting peerID session =>
    obtain ⟨hgenuine, hcurrent, hopen⟩ := ht
    simp only [Task.advance]
    split_ifs with hblocked
    · exact ⟨hstop, rfl, rfl⟩
    refine ⟨⟨fun peerID' session' hget => ?_, h.handshakes, by simp,
      fun hreturned => absurd hreturned hopen⟩, rfl, rfl⟩
    rw [Bucket.get_put] at hget
    split_ifs at hget with hpeer
    · cases hget
      rw [hpeer]
      exact ⟨hgenuine, hcurrent, Bool.eq_false_iff.2 hblocked⟩
    · exact h.published peerID' session' hget

/-- With the number gone up there must be no session left, and no task that holds `tlsMu`. -/
theorem Manager.Sound.detach (h : m.Sound) (hfree : m.Free) (phase : Phase) :
    Manager.Sound ⟨{ m.qm.detach with phase := phase }, m.tasks⟩ where
  published := fun peerID session hget => absurd hget (by simp [QUICManager.detach])
  handshakes := fun conn generation hget => absurd hget (by simp [QUICManager.detach])
  tasks := fun t ht => (h.tasks t ht).of_free (hfree t ht)
  closed := fun _ => rfl

/-- Removing sessions and changing who is blocked keeps what is known of the others. -/
theorem Manager.Sound.restrict (h : m.Sound) {sessions : Bucket String Session}
    {blockedPeers : Bucket String Unit}
    (hkept : ∀ peerID session, sessions.get peerID = some session →
      m.qm.sessions.get peerID = some session ∧
        (m.qm.blockedPeers.has peerID = false → blockedPeers.has peerID = false)) :
    Manager.Sound ⟨{ m.qm with sessions := sessions, blockedPeers := blockedPeers }, m.tasks⟩ where
  published := fun peerID session hget => by
    obtain ⟨hget', hunblocked⟩ := hkept peerID session hget
    obtain ⟨hgenuine, hcurrent, hblocked⟩ := h.published peerID session hget'
    exact ⟨hgenuine, hcurrent, hunblocked hblocked⟩
  handshakes := h.handshakes
  tasks := fun t ht => (h.tasks t ht).congr rfl id
  closed := fun hreturned => by
    refine Bucket.ext_get fun peerID => ?_
    rcases hget : sessions.get peerID with _ | session
    · simp
    have hget' := (hkept peerID session hget).1
    simp [h.closed hreturned] at hget'

theorem Manager.Sound.closeAndRemoveSession (h : m.Sound) (peerID : String) :
    Manager.Sound ⟨m.qm.closeAndRemoveSession peerID, m.tasks⟩ := by
  refine h.restrict fun peerID' session hget => ⟨?_, id⟩
  rw [Bucket.get_erase] at hget
  split_ifs at hget
  exact hget

theorem has_put {b : Bucket String Unit} {k k' : String} (hne : k' ≠ k) :
    (b.put k ()).has k' = b.has k' := by
  simp only [Bucket.has, Bucket.get_put, if_neg hne]

theorem Manager.Sound.step {m' : Manager} (h : m.Sound) (hstep : Manager.Step m m') : m'.Sound := by
  -- A task that starts knows nothing that could be wrong.
  have hspawn : ∀ t : Task, t.Knows m.qm → Manager.Sound ⟨m.qm, t :: m.tasks⟩ := fun t ht =>
    ⟨h.published, h.handshakes, List.forall_mem_cons.2 ⟨ht, h.tasks⟩, h.closed⟩
  cases hstep with
  | @advance qm before after t handshake =>
    obtain ⟨hsound, hgeneration, hphase⟩ :=
      Task.advance_sound h (h.tasks t (by simp)) handshake
    refine ⟨hsound.published, hsound.handshakes, fun t' ht' => ?_, hsound.closed⟩
    have hother : t' ∈ before ++ t :: after → t'.Knows (t.advance qm handshake).2 :=
      fun hmem => (h.tasks t' hmem).congr hgeneration fun hreturned => hphase ▸ hreturned
    simp only [List.mem_append] at ht'
    rcases ht' with hbefore | hnext | hafter
    · exact hother (List.mem_append_left _ hbefore)
    · exact hsound.tasks t' hnext
    · exact hother (List.mem_append_right _ (List.mem_cons_of_mem _ hafter))
  | dial _ | hello => exact hspawn _ trivial
  | setSession peerID conn =>
    refine hspawn _ fun generation hexpected => ?_
    cases hexpected
  | reloadTLS hfree => exact h.detach hfree m.qm.phase
  | closeAndRemoveSession peerID => exact h.closeAndRemoveSession peerID
  | closeSessionIf peerID conn =>
    simp only [QUICManager.closeSessionIf]
    split_ifs
    · exact h.closeAndRemoveSession peerID
    · exact h
  | allowPeerSessions peerID =>
    refine h.restrict fun peerID' session hget => ⟨hget, fun hunblocked => ?_⟩
    simp only [Bucket.has, Bucket.get_erase] at hunblocked ⊢
    split_ifs
    · rfl
    · exact hunblocked
  | blockPeerSessions peerID =>
    refine h.restrict fun peerID' session hget => ?_
    rw [Bucket.get_erase] at hget
    split_ifs at hget with hpeer
    exact ⟨hget, fun hunblocked => (has_put hpeer).trans hunblocked⟩
  | cancel hrunning =>
    refine ⟨h.published, h.handshakes, fun t ht => (h.tasks t ht).congr rfl ?_, ?_⟩
    · exact fun hreturned => by cases hreturned
    · exact fun hreturned => by cases hreturned
  | close hcancelled hfree => exact h.detach hfree .returned

theorem Manager.sound_new : Manager.new.Sound where
  published := fun peerID session hget => absurd hget (by simp [Manager.new, QUICManager.new])
  handshakes := fun conn generation hget => absurd hget (by simp [Manager.new, QUICManager.new])
  tasks := fun t ht => absurd ht List.not_mem_nil
  closed := fun hreturned => absurd hreturned (by simp [Manager.new, QUICManager.new])

theorem Manager.Sound.returned {m' : Manager} (hm : m.Sound) (hstep : Manager.Step m m')
    (h : m.qm.phase = .returned) : m'.qm.phase = .returned := by
  cases hstep with
  | @advance qm before after t handshake =>
    exact (Task.advance_sound hm (hm.tasks t (by simp)) handshake).2.2.trans h
  | cancel hrunning => exact absurd (hrunning.symm.trans h) (by decide)
  | closeSessionIf peerID conn =>
    simp only [QUICManager.closeSessionIf]
    split_ifs <;> exact h
  | close hcancelled hfree => rfl
  | _ => exact h

/-- Every session in the table that a dial or an accept published uses the current TLS
configuration, presents the certificate of its peer and belongs to a peer that is not
blocked; and after `Close` the table stays empty. -/
theorem session_table_safe (m : Manager)
    (hrun : Relation.ReflTransGen Manager.Step Manager.new m) :
    (∀ peerID session generation, m.qm.sessions.get peerID = some session →
      session.expectedGeneration = some generation →
        session.conn.established = m.qm.tlsGeneration ∧ session.conn.peerCN = some peerID ∧
          m.qm.blockedPeers.has peerID = false) ∧
      (m.qm.phase = .returned → ∀ m', Relation.ReflTransGen Manager.Step m m' →
        m'.qm.sessions = .empty) := by
  have hinv : ∀ {a b : Manager}, a.Sound → Relation.ReflTransGen Manager.Step a b → b.Sound := by
    intro a b ha hab
    induction hab with
    | refl => exact ha
    | tail _ hstep ih => exact ih.step hstep
  have hsound := hinv Manager.sound_new hrun
  refine ⟨fun peerID session generation hget hexpected => ?_, fun hreturned m' hafter => ?_⟩
  · obtain ⟨hgenuine, hcurrent, hblocked⟩ := hsound.published peerID session hget
    obtain ⟨hestablished, hcn⟩ := hgenuine generation hexpected
    exact ⟨hestablished.trans (hcurrent generation hexpected), hcn, hblocked⟩
  · refine (hinv hsound hafter).closed ?_
    induction hafter with
    | refl => exact hreturned
    | tail hbefore hstep ih => exact (hinv hsound hbefore).returned hstep ih

/-- The configuration is reloaded, and a peer is dialled and answers. -/
theorem session_table_safe_dialled :
    ∃ m, Relation.ReflTransGen Manager.Step Manager.new m ∧
      m.qm.sessions.get "p" = some ⟨⟨0, some "p", 2⟩, some 2⟩ ∧ m.qm.tlsGeneration = 2 ∧
      m.qm.blockedPeers.has "p" = false := by
  have hreload : Manager.Step Manager.new _ := .reloadTLS fun t ht => absurd ht List.not_mem_nil
  have hdial := (Relation.ReflTransGen.single hreload).tail (.dial "p")
  have hverify := hdial.tail (@Manager.Step.advance _ [] [] _ (some (0, some "p")))
  have hcheck := hverify.tail (@Manager.Step.advance _ [] [] _ none)
  have hset := hcheck.tail (@Manager.Step.advance _ [] [] _ none)
  refine ⟨_, hset, rfl, rfl, ?_⟩
  exact ((session_table_safe _ hset).1 "p" ⟨⟨0, some "p", 2⟩, some 2⟩ 2 rfl rfl).2.2

end Proxyma.Sessions
