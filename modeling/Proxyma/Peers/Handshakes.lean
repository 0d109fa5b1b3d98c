import Proxyma.Lib.Text
import Proxyma.Peers.Registry

/-!
# Failed TLS handshakes

The HTTP server logs through `tlsErrorWriter`.  A line about a failed handshake names
the address of the other end, and the first peer found that is registered with an address
containing the host of it is set offline.

`write_handshakeLine` is what such a line comes to, once it has been taken apart.  The host
may stand anywhere in an address, as part of a longer host or of a port, so only the origin
of the handshake is affected just when no peer contains the host without having it.
-/

namespace Proxyma.Peers

open Text

/-- `strings.SplitN(s, sep, 2)`, if that gives two parts. -/
def cut (sep : List Char) : List Char → Option (List Char × List Char)
  | [] => none
  | c :: cs =>
    if sep <+: c :: cs then some ([], (c :: cs).drop sep.length)
    else (cut sep cs).map fun parts => (c :: parts.1, parts.2)

/-- A text before and after its last colon. -/
def cutLast : List Char → Option (List Char × List Char)
  | [] => none
  | c :: cs =>
    match cutLast cs with
    | some (front, port) => some (c :: front, port)
    | none => if c = ':' then some ([], cs) else none

/-- The host of `net.SplitHostPort`, with `none` for its errors. -/
def splitHostPort (hostPort : List Char) : Option (List Char) :=
  (cutLast hostPort).bind fun (host, port) =>
    if host.head? = some '[' then
      -- The first closing bracket has to stand before the last colon.
      let inner := host.tail.dropLast
      if host = '[' :: inner ++ [']'] ∧ '[' ∉ inner ++ port ∧ ']' ∉ inner ++ port then some inner
      else none
    else if ':' ∈ host ∨ '[' ∈ host ++ port ∨ ']' ∈ host ++ port then none
    else some host

/-- `net.JoinHostPort`. -/
def joinHostPort (host port : List Char) : List Char :=
  if ':' ∈ host then '[' :: host ++ ']' :: ':' :: port else host ++ ':' :: port

/-- The host of the URL that a peer is registered with. -/
def addressHost (address : String) : List Char :=
  let rest := (cut "://".toList address.toList).elim address.toList Prod.snd
  let authority := rest.takeWhile (· ∉ ['/', '?', '#'])
  (splitHostPort authority).getD (authority.filter (· ∉ ['[', ']']))

/-- The other end of a connection: an IP address, perhaps with a zone, and a port. -/
structure RemoteAddr where
  host : List Char
  port : ℕ
  plain : ∀ c ∈ host, c ≠ '[' ∧ c ≠ ']' ∧ c ≠ ' '

/-- What `net/http` logs when the handshake with a client fails. -/
def handshakeLine (remote : RemoteAddr) (err : List Char) : List Char :=
  "http: ".toList ++ ("TLS handshake error from ".toList ++
    (joinHostPort remote.host (Nat.toDigits 10 remote.port) ++ (": ".toList ++ err)))

/-- `GetPeersRecordCopy`. -/
def PeerRegistry.getPeersRecordCopy (pr : PeerRegistry) : List (String × AddressRecord) :=
  pr.peers.entries.filterMap fun e => e.2.record.map (e.1, ·)

/-- Whether a peer is taken for the origin: `peerID` is empty as long as none is found. -/
def matchesHost (host : List Char) (e : String × AddressRecord) : Bool :=
  e.1 ≠ "" ∧ e.2.addresses.any fun a => host <:+: a.toList

/-- `tlsErrorWriter.Write`, with the peers in the order in which they are gone through:
whom it sets offline, and the registry afterwards. -/
def write (order : List (String × AddressRecord)) (pr : PeerRegistry) (line : List Char) :
    Option String × PeerRegistry :=
  if ¬ "TLS handshake error".toList <:+: line then (none, pr)
  else match cut "TLS handshake error from ".toList line with
  | none => (none, pr)
  | some (_, addrPart) => match cut ": ".toList addrPart with
    | none => (none, pr)
    | some (hostPort, errMsg) =>
      let host := (splitHostPort hostPort).getD hostPort
      match order.find? (matchesHost host) with
      | none => (none, pr)
      | some (peerID, _) => (some peerID, pr.setPeerOffline peerID
          (some ("TLS handshake failed: " ++ trimSpace (String.ofList errMsg))))

/-! ## What is read off a line -/

theorem mem_getPeersRecordCopy {pr : PeerRegistry} {id : String} {r : AddressRecord} :
    (id, r) ∈ pr.getPeersRecordCopy ↔ pr.record id = some r := by
  simp [PeerRegistry.getPeersRecordCopy, PeerRegistry.record, Option.bind_eq_some_iff,
    Keyed.Bucket.mem_entries]

theorem cut_colon {s rest : List Char} (hs : ' ' ∉ s) :
    cut ": ".toList (s ++ (": ".toList ++ rest)) = some (s, rest) := by
  induction s with
  | nil => simp [cut]
  | cons c s ih =>
    simp only [List.mem_cons, not_or] at hs
    have hc : ¬ ": ".toList <+: c :: (s ++ (": ".toList ++ rest)) := by
      cases s <;> simp_all
    rw [List.cons_append, cut, if_neg hc, ih hs.2]
    rfl

theorem cutLast_append {front port : List Char} (hport : ':' ∉ port) :
    cutLast (front ++ ':' :: port) = some (front, port) := by
  have hnone : cutLast port = none := by
    induction port with
    | nil => rfl
    | cons c port ih =>
      simp only [List.mem_cons, not_or] at hport
      simp [cutLast, ih hport.2, Ne.symm hport.1]
  induction front with
  | nil => simp [cutLast, hnone]
  | cons c front ih => simp [cutLast, ih]

theorem notMem_port {c : Char} {port : ℕ} (hc : c.isDigit = false) : c ∉ Nat.toDigits 10 port :=
  fun hmem => by simp [Nat.isDigit_of_mem_toDigits (by decide) (by decide) hmem] at hc

theorem splitHostPort_joinHostPort (remote : RemoteAddr) :
    splitHostPort (joinHostPort remote.host (Nat.toDigits 10 remote.port)) = some remote.host := by
  have hopen : '[' ∉ remote.host := fun h => (remote.plain _ h).1 rfl
  have hclose : ']' ∉ remote.host := fun h => (remote.plain _ h).2.1 rfl
  unfold joinHostPort splitHostPort
  split_ifs with hcolon
  · rw [show '[' :: remote.host ++ ']' :: ':' :: Nat.toDigits 10 remote.port =
      ('[' :: remote.host ++ [']']) ++ ':' :: Nat.toDigits 10 remote.port by simp,
      cutLast_append (notMem_port rfl)]
    simp [hopen, hclose, notMem_port]
  · rw [cutLast_append (notMem_port rfl)]
    have hhead : remote.host.head? ≠ some '[' := fun h => hopen (List.mem_of_mem_head? h)
    simp [hhead, hcolon, hopen, hclose, notMem_port]

/-- The line is taken apart into the host it was made for and the error. -/
theorem write_handshakeLine (order : List (String × AddressRecord)) (pr : PeerRegistry)
    (remote : RemoteAddr) (err : List Char) :
    write order pr (handshakeLine remote err) =
      match order.find? (matchesHost remote.host) with
      | none => (none, pr)
      | some (peerID, _) => (some peerID, pr.setPeerOffline peerID
          (some ("TLS handshake failed: " ++ trimSpace (String.ofList err)))) := by
  have hspace : ' ' ∉ joinHostPort remote.host (Nat.toDigits 10 remote.port) := by
    have hhost : ' ' ∉ remote.host := fun h => (remote.plain _ h).2.2 rfl
    unfold joinHostPort
    split_ifs <;> simp [hhost, notMem_port]
  have hcut : cut "TLS handshake error from ".toList (handshakeLine remote err) =
      some ("http: ".toList, joinHostPort remote.host (Nat.toDigits 10 remote.port) ++
        (": ".toList ++ err)) := by
    simp [handshakeLine, cut]
  have hinfix : "TLS handshake error".toList <:+: handshakeLine remote err :=
    .trans (by decide +kernel : _ <:+: "TLS handshake error from ".toList)
      ((List.prefix_append _ _).isInfix.trans (List.suffix_append _ _).isInfix)
  unfold write
  rw [if_neg (not_not.2 hinfix), hcut]
  simp only [cut_colon hspace, splitHostPort_joinHostPort, Option.getD_some]

/-- Only the origin of the handshake is set offline, and no other peer changes. -/
def Confined (pr : PeerRegistry) (host : List Char) (out : Option String × PeerRegistry) : Prop :=
  (∀ id, out.1 = some id →
    ∃ r, pr.record id = some r ∧ ∃ a ∈ r.addresses, addressHost a = host) ∧
  ∀ other, out.1 ≠ some other → out.2.peers.get other = pr.peers.get other

theorem handshake_confined_iff (pr : PeerRegistry) (remote : RemoteAddr) (err : List Char) :
    (∀ order, order.Perm pr.getPeersRecordCopy →
      Confined pr remote.host (write order pr (handshakeLine remote err))) ↔
    ∀ id r, id ≠ "" → pr.record id = some r → (∃ a ∈ r.addresses, remote.host <:+: a.toList) →
      ∃ a ∈ r.addresses, addressHost a = remote.host := by
  simp only [write_handshakeLine]
  constructor
  · intro h id r hid hr hcontains
    -- The peer may be the first one that is looked at.
    have hmem : (id, r) ∈ pr.getPeersRecordCopy := mem_getPeersRecordCopy.2 hr
    have hfirst := h _ (List.perm_cons_erase hmem).symm
    rw [List.find?_cons_of_pos (by simpa [matchesHost, hid] using hcontains)] at hfirst
    obtain ⟨r', hr', hhost⟩ := hfirst.1 id rfl
    cases hr.symm.trans hr'
    exact hhost
  · intro h order horder
    cases hfound : order.find? (matchesHost remote.host) with
    | none => exact ⟨nofun, fun _ _ => rfl⟩
    | some e =>
      obtain ⟨hid, hcontains⟩ : e.1 ≠ "" ∧ ∃ a ∈ e.2.addresses, remote.host <:+: a.toList := by
        simpa [matchesHost] using List.find?_some hfound
      have hr := mem_getPeersRecordCopy.1 (horder.mem_iff.1 (List.mem_of_find?_eq_some hfound))
      refine ⟨fun id hmarked => ?_, fun other hother => ?_⟩
      · cases hmarked
        exact ⟨e.2, hr, h e.1 e.2 hid hr hcontains⟩
      · have hne : other ≠ e.1 := fun heq => hother (congrArg some heq.symm)
        simp [PeerRegistry.setPeerOffline, Keyed.Bucket.get_put, hne]

/-- The host of a node is contained in a host that is longer by one digit. -/
theorem longer_host_set_offline :
    let pr := (PeerRegistry.new "a").added "b" ⟨["https://10.0.0.10:8443"], 0, false⟩
    ¬ Confined pr "10.0.0.1".toList (write pr.getPeersRecordCopy pr
      (handshakeLine ⟨"10.0.0.1".toList, 50000, by simp⟩ "EOF".toList)) := by
  intro pr h
  obtain ⟨r, hr, a, ha, hhost⟩ := h.1 "b" (by decide +kernel)
  have hpr : pr.record "b" = some ⟨["https://10.0.0.10:8443"], 0, false⟩ := by decide +kernel
  cases hpr.symm.trans hr
  rw [List.mem_singleton.1 ha] at hhost
  revert hhost
  decide +kernel

end Proxyma.Peers
