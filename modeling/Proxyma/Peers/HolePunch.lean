import Proxyma.Lib.Bucket
import Proxyma.Protocol

/-!
# Hole punching

`InitiateHolePunch` and `RespondToHolePunch` share one record per peer of the
dial in flight.  Whoever finds none makes one and does the work; the others wait
until its `done` channel is closed and read what was left in it.

Of two peers, the one with the lower id dials after the punch.  A responder with
the higher id has nothing to dial: it closes the record with neither a connection
nor an error, and an initiator that has waited for it returns just that.  With the
lower id every exit of either function leaves a connection or an error
(`Backed`), which is the invariant of the other direction.

The fields of a record are read after `done` is closed only, so they are written
with it.  What the network does is the `Event` a step is given.
-/

namespace Proxyma.HolePunch

open Keyed GoError

/-- A QUIC connection; the nil pointer is `none` of an `Option Conn`. -/
abbrev Conn := ℕ

/-- Why a context is done. -/
inductive ContextErr
  | canceled
  | deadlineExceeded
  deriving DecidableEq

/-- `ctx.Err()`. -/
def ContextErr.error : ContextErr → GoError
  | canceled => .new "context canceled"
  | deadlineExceeded => .new "context deadline exceeded"

/-- `dialResult`, with the peer it is for. -/
structure DialResult where
  peerID : String
  done : Bool
  conn : Option Conn
  err : Option GoError

/-- What a `QUICManager` needs for punching; `records` are the dial results ever
made, and `dials` has their numbers. -/
structure QUICManager where
  localID : String
  sessions : Bucket String Conn
  dials : Bucket String ℕ
  records : List DialResult

/-- `NewQUICManager`. -/
def QUICManager.new (localID : String) : QUICManager := ⟨localID, .empty, .empty, []⟩

/-- What the exchange over the relay comes to: no address to punch, a failed
request, an answer that cannot be read, or the sender of the answer and the
candidate addresses. -/
inductive InitReply
  | noQUIC
  | failed (err : GoError)
  | garbled (err : GoError)
  | answered (senderID : String) (candidates : Except GoError (List String))

/-- What a step of a call finds out. -/
inductive Event
  | go
  | expired
  | ctxDone (err : ContextErr)
  | refused
  | init (reply : InitReply)
  | heard
  | dialed (conn : Conn)
  | failed (err : GoError)

/-- Who is punching: `InitiateHolePunch` with the candidates left and the errors of
the others, or `RespondToHolePunch`. -/
inductive Role
  | initiator (candidates : List String) (attemptErrors : List GoError)
  | responder

/-- Where a call stands. -/
inductive Call
  | initiate (peerID : String)
  | initiateLookup (peerID : String)
  | initiateWaiting (peerID : String) (record : ℕ)
  | preparing (peerID : String) (record : ℕ)
  | respond (peerID : String)
  | respondLookup (peerID : String)
  | respondWaiting (record : ℕ)
  | awaiting (peerID : String) (record : ℕ) (role : Role)
  | establishing (peerID : String) (record : ℕ) (role : Role)
  | removing (peerID : String) (record : ℕ) (conn : Option Conn) (err : Option GoError)
      (role : Role)
  | closing (peerID : String) (record : ℕ) (conn : Option Conn) (err : Option GoError)
      (role : Role)
  | returned (peerID : String) (conn : Option Conn) (err : Option GoError)
  | finished

/-- `errors.Join` of a list; the empty list does not occur. -/
def joinAll : List GoError → GoError
  | [] => .new "<nil>"
  | [err] => err
  | err :: rest => .join err (joinAll rest)

/-! ## The steps of a call -/

section Steps

variable (qm : QUICManager)

/-- Make the record of a new dial. -/
def QUICManager.register (peerID : String) : QUICManager :=
  { qm with
    dials := qm.dials.put peerID qm.records.length
    records := qm.records ++ [⟨peerID, false, none, none⟩] }

/-- An attempt has failed: the initiator takes the next candidate, the responder
gives up. -/
def Role.next (peerID : String) (record : ℕ) (err : GoError) : Role → Call
  | .responder => .removing peerID record none (some err) .responder
  | .initiator [] attemptErrors =>
    .removing peerID record none (some (.wrapf "all compatible QUIC addresses failed: %w" []
      (joinAll attemptErrors))) (.initiator [] attemptErrors)
  | .initiator [candidate] attemptErrors =>
    let attemptErrors := attemptErrors ++ [.wrapf "%s: %w" [candidate] err]
    .removing peerID record none (some (.wrapf "all compatible QUIC addresses failed: %w" []
      (joinAll attemptErrors))) (.initiator [] attemptErrors)
  | .initiator (candidate :: rest) attemptErrors =>
    .awaiting peerID record (.initiator rest (attemptErrors ++ [.wrapf "%s: %w" [candidate] err]))

/-- `errors.Is` with one of the two errors of a context. -/
def isContextErr (err : Option GoError) : Bool :=
  err.any fun err => err.is ContextErr.canceled.error || err.is ContextErr.deadlineExceeded.error

/-- `performHolePunch`, up to the candidates. -/
def prepared (peerID : String) (record : ℕ) : InitReply → Call
  | .noQUIC =>
    failing (.errorf "remote peer does not advertise quic:// public address" [])
  | .failed err => failing (.wrapf "failed to send hole punch init over relay: %w" [] err)
  | .garbled err => failing (.wrapf "failed to parse hole punch response: %w" [] err)
  | .answered senderID candidates =>
    if senderID ≠ peerID then
      failing (.errorf "hole punch response sender mismatch: expected %q, got %q"
        [peerID, senderID])
    else
      match candidates with
      | .error err => failing err
      | .ok [] => failing (.wrapf "all compatible QUIC addresses failed: %w" [] (joinAll []))
      | .ok (candidate :: rest) => .awaiting peerID record (.initiator (candidate :: rest) [])
where
  failing (err : GoError) : Call := .removing peerID record none (some err) (.initiator [] [])

/-- One step of a call, given what it finds out; a call that cannot go on stays
where it is. -/
def Call.step (event : Event) : Call → Call × QUICManager
  -- The loop of `InitiateHolePunch`.
  | .initiate peerID =>
    match qm.sessions.get peerID with
    | some conn => (.returned peerID (some conn) none, qm)
    | none => (.initiateLookup peerID, qm)
  | .initiateLookup peerID =>
    match qm.dials.get peerID with
    | some record => (.initiateWaiting peerID record, qm)
    | none => (.preparing peerID qm.records.length, qm.register peerID)
  | .initiateWaiting peerID record =>
    match event, qm.records[record]? with
    | .ctxDone err, _ => (.returned peerID none (some err.error), qm)
    | .go, some ⟨_, true, conn, err⟩ =>
      if isContextErr err then (.initiate peerID, qm) else (.returned peerID conn err, qm)
    | .expired, some ⟨_, true, conn, err⟩ => (.returned peerID conn err, qm)
    | _, _ => (.initiateWaiting peerID record, qm)
  | .preparing peerID record =>
    match event with
    | .init reply => (prepared peerID record reply, qm)
    | _ => (.preparing peerID record, qm)
  -- `RespondToHolePunch`.
  | .respond peerID =>
    match event with
    | .refused => (.finished, qm)
    | _ => if qm.sessions.has peerID then (.finished, qm) else (.respondLookup peerID, qm)
  | .respondLookup peerID =>
    match qm.dials.get peerID with
    | some record => (.respondWaiting record, qm)
    | none => (.awaiting peerID qm.records.length .responder, qm.register peerID)
  | .respondWaiting record =>
    match event, qm.records[record]? with
    | .ctxDone _, _ => (.finished, qm)
    | .go, some ⟨_, true, _, _⟩ => (.finished, qm)
    | _, _ => (.respondWaiting record, qm)
  -- `waitForHolePunch`.
  | .awaiting peerID record role =>
    match event, role with
    | .heard, .initiator _ _ => (.establishing peerID record role, qm)
    | .heard, .responder =>
      if ¬ qm.localID < peerID then (.removing peerID record none none role, qm)
      else (.establishing peerID record role, qm)
    | .ctxDone err, _ =>
      (role.next peerID record
        (.wrapf "hole punching timeout to %s: %w" [peerID] err.error), qm)
    | _, _ => (.awaiting peerID record role, qm)
  -- `establishSessionAfterPunch`.
  | .establishing peerID record role =>
    if qm.localID < peerID then
      match event with
      | .dialed conn =>
        (.removing peerID record (some conn) none role,
          { qm with sessions := qm.sessions.put peerID conn })
      | .failed err => (role.next peerID record err, qm)
      | _ => (.establishing peerID record role, qm)
    else
      match event, qm.sessions.get peerID with
      | .ctxDone err, _ =>
        (role.next peerID record
          (.wrapf "timeout waiting for incoming QUIC session from %s: %w" [peerID] err.error),
          qm)
      | .go, some conn => (.removing peerID record (some conn) none role, qm)
      | _, _ => (.establishing peerID record role, qm)
  -- `removeDial`.
  | .removing peerID record conn err role =>
    (.closing peerID record conn err role, { qm with dials := qm.dials.erase peerID })
  | .closing peerID record conn err role =>
    (match role with
      | .initiator _ _ => .returned peerID conn err
      | .responder => .finished,
      { qm with records := qm.records.set record ⟨peerID, true, conn, err⟩ })
  | .returned peerID conn err => (.returned peerID conn err, qm)
  | .finished => (.finished, qm)

end Steps

/-- A manager and the calls under way. -/
structure System where
  qm : QUICManager
  calls : List Call

/-- What can happen next: a call begins or takes a step, or somebody else
publishes or removes the session of a peer. -/
inductive Move
  | initiate (peerID : String)
  | respond (peerID : String)
  | step (i : ℕ) (event : Event)
  | session (peerID : String) (conn : Option Conn)

def System.move (m : System) : Move → System
  | .initiate peerID => { m with calls := m.calls ++ [.initiate peerID] }
  | .respond peerID => { m with calls := m.calls ++ [.respond peerID] }
  | .step i event =>
    match m.calls[i]? with
    | none => m
    | some call => ⟨(call.step m.qm event).2, m.calls.set i (call.step m.qm event).1⟩
  | .session peerID (some conn) =>
    { m with qm := { m.qm with sessions := m.qm.sessions.put peerID conn } }
  | .session peerID none =>
    { m with qm := { m.qm with sessions := m.qm.sessions.erase peerID } }

/-- A new manager after some moves. -/
def System.run (localID : String) (moves : List Move) : System :=
  moves.foldl System.move ⟨.new localID, []⟩

/-- `InitiateHolePunch` for a peer never returns without a connection or an
error. -/
def Returns (localID peerID : String) : Prop :=
  ∀ moves conn, .returned peerID conn none ∈ (System.run localID moves).calls → conn ≠ none

/-! ## The lower id -/

/-- There is an error, or there is a connection. -/
def Backed (conn : Option Conn) (err : Option GoError) : Prop := err = none → conn ≠ none

theorem backed_error (conn : Option Conn) (err : GoError) : Backed conn (some err) :=
  fun h => by cases h

theorem backed_conn (conn : Conn) (err : Option GoError) : Backed (some conn) err :=
  fun _ h => by cases h

/-- The number of a record made for a peer. -/
def IsFor (records : List DialResult) (record : ℕ) (peerID : String) : Prop :=
  ∃ result, records[record]? = some result ∧ result.peerID = peerID

/-- What the calls know: whose record they have, and that what they leave for `p`
is backed. -/
def Call.Ok (p : String) (records : List DialResult) : Call → Prop
  | .initiateWaiting peerID record => IsFor records record peerID
  | .preparing peerID record => IsFor records record peerID
  | .awaiting peerID record _ => IsFor records record peerID
  | .establishing peerID record _ => IsFor records record peerID
  | .removing peerID record conn err _ =>
    IsFor records record peerID ∧ (peerID = p → Backed conn err)
  | .closing peerID record conn err _ =>
    IsFor records record peerID ∧ (peerID = p → Backed conn err)
  | .returned peerID conn err => peerID = p → Backed conn err
  | _ => True

/-- The records of `p` that are done are backed, and `dials` leads to records of its
keys. -/
structure QUICManager.Sound (p : String) (qm : QUICManager) : Prop where
  records : ∀ result ∈ qm.records, result.peerID = p → result.done = true →
    Backed result.conn result.err
  dials : ∀ peerID record, qm.dials.get peerID = some record → IsFor qm.records record peerID

/-- What a step leaves behind. -/
structure Keeps (p : String) (qm : QUICManager) (call : Call) (qm' : QUICManager) : Prop where
  sound : qm'.Sound p
  localID : qm'.localID = qm.localID
  isFor : ∀ record peerID, IsFor qm.records record peerID → IsFor qm'.records record peerID
  ok : call.Ok p qm'.records

variable {records : List DialResult} {call : Call} {localID : String}

section Lower

variable {p : String} {qm : QUICManager}
variable {peerID : String} {record : ℕ}

theorem Keeps.stay (hqm : qm.Sound p) (hok : call.Ok p qm.records) : Keeps p qm call qm :=
  ⟨hqm, rfl, fun _ _ h => h, hok⟩

theorem isFor_append (h : IsFor records record peerID) (more : List DialResult) :
    IsFor (records ++ more) record peerID := by
  obtain ⟨result, hget, hpeer⟩ := h
  obtain ⟨hlt, -⟩ := List.getElem?_eq_some_iff.1 hget
  exact ⟨result, by rw [List.getElem?_append_left hlt, hget], hpeer⟩

theorem Keeps.register (hqm : qm.Sound p) (peerID : String)
    (hok : ∀ records, IsFor records qm.records.length peerID → call.Ok p records) :
    Keeps p qm call (qm.register peerID) := by
  have hnew : IsFor (qm.register peerID).records qm.records.length peerID :=
    ⟨⟨peerID, false, none, none⟩, by simp [QUICManager.register], rfl⟩
  refine ⟨⟨fun result hresult hpeer hdone => ?_, fun other record hget => ?_⟩, rfl,
    fun record other h => isFor_append h _, hok _ hnew⟩
  · rcases List.mem_append.1 hresult with hresult | hresult
    · exact hqm.records result hresult hpeer hdone
    · simp [List.mem_singleton.1 hresult] at hdone
  · simp only [QUICManager.register, Bucket.get_put] at hget
    split_ifs at hget with hother
    · rwa [hother, ← Option.some.inj hget]
    · exact isFor_append (hqm.dials other record hget) _

theorem Keeps.close (hqm : qm.Sound p) {conn : Option Conn} {err : Option GoError}
    (hrecord : IsFor qm.records record peerID) (hbacked : peerID = p → Backed conn err)
    (hok : ∀ records, call.Ok p records) :
    Keeps p qm call { qm with records := qm.records.set record ⟨peerID, true, conn, err⟩ } := by
  have hisFor : ∀ other q, IsFor qm.records other q →
      IsFor (qm.records.set record ⟨peerID, true, conn, err⟩) other q := by
    rintro other q ⟨result, hget, hpeer⟩
    obtain ⟨result', hget', hpeer'⟩ := hrecord
    obtain ⟨hlt, -⟩ := List.getElem?_eq_some_iff.1 hget
    by_cases hother : record = other
    · subst hother
      cases hget.symm.trans hget'
      exact ⟨⟨peerID, true, conn, err⟩, by simp [hlt], hpeer'.symm.trans hpeer⟩
    · exact ⟨result, by rw [List.getElem?_set_ne hother, hget], hpeer⟩
  refine ⟨⟨fun result hresult hpeer hdone => ?_, fun q other hget => ?_⟩, rfl, hisFor, hok _⟩
  · rcases List.mem_or_eq_of_mem_set hresult with hresult | rfl
    · exact hqm.records result hresult hpeer hdone
    · exact hbacked hpeer
  · exact hisFor other q (hqm.dials q other hget)

theorem Role.next_ok (hrecord : IsFor records record peerID) (err : GoError) (role : Role) :
    (role.next peerID record err).Ok p records := by
  rcases role with ⟨_ | ⟨candidate, _ | ⟨next, rest⟩⟩, attemptErrors⟩ | _
  · exact ⟨hrecord, fun _ => backed_error _ _⟩
  · exact ⟨hrecord, fun _ => backed_error _ _⟩
  · exact hrecord
  · exact ⟨hrecord, fun _ => backed_error _ _⟩

theorem prepared_ok (hrecord : IsFor records record peerID) (reply : InitReply) :
    (prepared peerID record reply).Ok p records := by
  have hfailing : ∀ err, (prepared.failing peerID record err).Ok p records :=
    fun err => ⟨hrecord, fun _ => backed_error _ _⟩
  cases reply with
  | noQUIC | failed _ | garbled _ => exact hfailing _
  | answered senderID candidates =>
    simp only [prepared]
    split_ifs
    · exact hfailing _
    · rcases candidates with err | _ | ⟨candidate, rest⟩
      · exact hfailing _
      · exact hfailing _
      · exact hrecord

/-- Every exit of a call with the lower id leaves a connection or an error. -/
theorem Call.step_keeps (hlocal : qm.localID < p) (hqm : qm.Sound p) (hcall : call.Ok p qm.records)
    (event : Event) : Keeps p qm (call.step qm event).1 (call.step qm event).2 := by
  cases call with
  | initiate peerID =>
    simp only [Call.step]
    cases qm.sessions.get peerID with
    | some conn => exact .stay hqm fun _ => backed_conn _ _
    | none => exact .stay hqm trivial
  | initiateLookup peerID =>
    simp only [Call.step]
    cases hget : qm.dials.get peerID with
    | some record => exact .stay hqm (hqm.dials peerID record hget)
    | none => exact .register hqm peerID fun _ h => h
  | initiateWaiting peerID record =>
    -- What is read from a record that is done is backed.
    have hread : ∀ {result : DialResult}, qm.records[record]? = some result →
        result.done = true → peerID = p → Backed result.conn result.err := by
      intro result hget hdone hp
      obtain ⟨result', hget', hpeer⟩ := hcall
      cases hget.symm.trans hget'
      exact hqm.records result (List.mem_of_getElem? hget) (hpeer.trans hp) hdone
    simp only [Call.step]
    split
    · exact .stay hqm fun _ => backed_error _ _
    · rename_i hget
      split_ifs
      · exact .stay hqm trivial
      · exact .stay hqm (hread hget rfl)
    next hget => exact .stay hqm (hread hget rfl)
    · exact .stay hqm hcall
  | preparing peerID record =>
    simp only [Call.step]
    cases event with
    | init reply => exact .stay hqm (prepared_ok hcall reply)
    | _ => exact .stay hqm hcall
  | respond peerID =>
    simp only [Call.step]
    split
    · exact .stay hqm trivial
    · split_ifs <;> exact .stay hqm trivial
  | respondLookup peerID =>
    simp only [Call.step]
    cases qm.dials.get peerID with
    | some record => exact .stay hqm trivial
    | none => exact .register hqm peerID fun _ h => h
  | respondWaiting record =>
    simp only [Call.step]
    split <;> exact .stay hqm trivial
  | awaiting peerID record role =>
    simp only [Call.step]
    split
    · exact .stay hqm hcall
    · split_ifs with hlower
      · exact .stay hqm hcall
      · refine .stay hqm ⟨hcall, fun hp => ?_⟩
        subst hp
        exact absurd hlocal hlower
    · exact .stay hqm (Role.next_ok hcall _ _)
    · exact .stay hqm hcall
  | establishing peerID record role =>
    simp only [Call.step]
    split_ifs
    · split
      · exact ⟨⟨hqm.records, hqm.dials⟩, rfl, fun _ _ h => h, hcall, fun _ => backed_conn _ _⟩
      · exact .stay hqm (Role.next_ok hcall _ _)
      · exact .stay hqm hcall
    · split
      · exact .stay hqm (Role.next_ok hcall _ _)
      · exact .stay hqm ⟨hcall, fun _ => backed_conn _ _⟩
      · exact .stay hqm hcall
  | removing peerID record conn err role =>
    refine ⟨⟨hqm.records, fun q other hget => hqm.dials q other ?_⟩, rfl, fun _ _ h => h, hcall⟩
    simp only [Call.step, Bucket.get_erase] at hget
    split_ifs at hget
    exact hget
  | closing peerID record conn err role =>
    obtain ⟨hrecord, hbacked⟩ := hcall
    cases role with
    | initiator candidates attemptErrors => exact .close hqm hrecord hbacked fun _ => hbacked
    | responder => exact .close hqm hrecord hbacked fun _ => trivial
  | returned peerID conn err => exact .stay hqm hcall
  | finished => exact .stay hqm trivial

/-- The manager and the calls are sound. -/
structure System.Sound (p : String) (m : System) : Prop where
  qm : m.qm.Sound p
  calls : ∀ call ∈ m.calls, call.Ok p m.qm.records

theorem Call.Ok.mono {records' : List DialResult} (h : call.Ok p records)
    (hisFor : ∀ record peerID, IsFor records record peerID → IsFor records' record peerID) :
    call.Ok p records' := by
  cases call with
  | initiateWaiting _ _ | preparing _ _ | awaiting _ _ _ | establishing _ _ _ => exact hisFor _ _ h
  | removing _ _ _ _ _ | closing _ _ _ _ _ => exact ⟨hisFor _ _ h.1, h.2⟩
  | returned peerID conn err => exact h
  | _ => trivial

theorem System.Sound.begin {m : System} (hm : m.Sound p) (hcall : call.Ok p m.qm.records) :
    System.Sound p { m with calls := m.calls ++ [call] } := by
  refine ⟨hm.qm, fun other hother => ?_⟩
  rcases List.mem_append.1 hother with hother | hother
  · exact hm.calls other hother
  · rwa [List.mem_singleton.1 hother]

theorem System.Sound.move {m : System} (hm : m.Sound p) (hlocal : m.qm.localID < p)
    (move : Move) : (m.move move).Sound p ∧ (m.move move).qm.localID = m.qm.localID := by
  cases move with
  | initiate _ | respond _ => exact ⟨hm.begin trivial, rfl⟩
  | session peerID conn =>
    cases conn <;> exact ⟨⟨⟨hm.qm.records, hm.qm.dials⟩, hm.calls⟩, rfl⟩
  | step i event =>
    simp only [System.move]
    rcases hget : m.calls[i]? with _ | call
    · exact ⟨hm, rfl⟩
    have hkeeps := Call.step_keeps hlocal hm.qm (hm.calls call (List.mem_of_getElem? hget))
      event
    refine ⟨⟨hkeeps.sound, fun other hother => ?_⟩, hkeeps.localID⟩
    rcases List.mem_or_eq_of_mem_set hother with hother | rfl
    · exact (hm.calls other hother).mono hkeeps.isFor
    · exact hkeeps.ok

theorem System.sound_run (hlocal : localID < p) (moves : List Move) :
    (System.run localID moves).Sound p ∧ (System.run localID moves).qm.localID = localID := by
  induction moves using List.reverseRecOn with
  | nil =>
    refine ⟨⟨⟨fun result hresult => absurd hresult List.not_mem_nil, fun q record hget => ?_⟩,
      fun call hcall => absurd hcall List.not_mem_nil⟩, rfl⟩
    cases hget
  | append_singleton moves move ih =>
    obtain ⟨hsound, hsame⟩ := ih
    have hlower : (System.run localID moves).qm.localID < p := by
      rwa [hsame]
    rw [System.run, List.foldl_append]
    obtain ⟨hnext, hkept⟩ := hsound.move hlower move
    exact ⟨hnext, hkept.trans hsame⟩

end Lower

/-! ## The higher id -/

/-- A responder makes the record, an initiator waits for it, the responder hears
the peer and has nothing to dial. -/
def emptyHanded (peerID : String) : List Move :=
  [.respond peerID, .step 0 .go, .step 0 .go, .initiate peerID, .step 1 .go, .step 1 .go,
    .step 0 .heard, .step 0 .go, .step 0 .go, .step 1 .go]

theorem run_emptyHanded {peerID : String} (h : ¬ localID < peerID) :
    (System.run localID (emptyHanded peerID)).calls = [.finished, .returned peerID none none] := by
  simp [System.run, emptyHanded, System.move, Call.step, QUICManager.new, QUICManager.register,
    Bucket.has, h, isContextErr]

/-- `InitiateHolePunch` returns a connection whenever it returns no error, in every
interleaving, for exactly the peers with a higher id. -/
theorem punch_returns_iff (localID peerID : String) : Returns localID peerID ↔ localID < peerID := by
  constructor
  · intro hreturns
    by_contra hhigher
    refine hreturns (emptyHanded peerID) none ?_ rfl
    rw [run_emptyHanded hhigher]
    exact List.mem_cons_of_mem _ List.mem_cons_self
  · intro hlocal moves conn hmem
    exact (System.sound_run hlocal moves).1.calls _ hmem rfl rfl

/-- Node `b` waits for its own answer to node `a`, and is told that the punch has
succeeded, without a connection. -/
theorem punch_without_connection :
    Call.returned "a" none none ∈ (System.run "b" (emptyHanded "a")).calls := by
  rw [run_emptyHanded (by decide)]
  exact List.mem_cons_of_mem _ List.mem_cons_self

end Proxyma.HolePunch
