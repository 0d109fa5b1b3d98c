import Mathlib.Data.Finset.Card
import Mathlib.Data.Finset.Image
import Mathlib.Tactic.Push

/-!
# Rotation of the cluster's CA

The authority stages a new CA and pushes it, with a new certificate each, to its peers.
A peer that receives a push installs it at once, on disk and in memory.  The authority
itself trusts both CAs while it pushes; when all pushes are acknowledged it installs the new
CA, and otherwise it goes back to the old one.

Nothing takes a push back.  Whether the cluster still holds together is therefore decided by
two facts about every peer: whether a push reached its files (`Push.Reaches`, after which
its CA file is the new one, see `push_reaches`), and whether the push was acknowledged
(`Push.Acknowledged`, after which memory and files are new, see `push_acknowledged`).

What can happen to a push or to a file is an input: `Push`, `Write` and `LocalOutcome`.
-/

namespace Proxyma.Rotation

/-- A node certificate: the CA that signed it and the key pair it is for. -/
structure Certificate where
  issuer : ℕ
  key : ℕ
  deriving DecidableEq

/-- The trust material in memory (`tlsServerMaterial` and `tlsClientMaterial`). -/
structure Material where
  trusted : List ℕ
  certificate : Certificate
  deriving DecidableEq

/-- The files of a node: its CA file, its certificate and its key. -/
structure Files where
  ca : List ℕ
  certificate : Certificate
  key : ℕ
  deriving DecidableEq

structure Node where
  memory : Material
  disk : Files

/-- `LoadNodeTLS`, on files that can be read. -/
def Files.loadNodeTLS (f : Files) : Option Material :=
  if f.ca = [] then none
  else if f.certificate.key = f.key then some ⟨f.ca, f.certificate⟩
  else none

def reloadTLSConfig (readable : Bool) (n : Node) : Bool × Node :=
  match (if readable then n.disk.loadNodeTLS else none) with
  | none => (false, n)
  | some memory => (true, { n with memory })

/-! ## Writing files -/

/-- The outcomes of `WriteFileAtomic`.  It reports an error also when only the directory
could not be synced, after the file is in place. -/
inductive Write
  | done
  | failed
  | unsynced
  deriving DecidableEq

/-- The file at hand after a write of `new`. -/
def Write.apply {α : Type*} (w : Write) (old new : α) : α :=
  match w with
  | .done => new
  | .failed => old
  | .unsynced => new

/-- The outcomes of the writes of `WriteNodePEMs`. -/
structure PEMWrites where
  ca : Write
  certificate : Write
  key : Write

def writeNodePEMs (w : PEMWrites) (f : Files) (caPEM : List ℕ) (certPEM : Certificate)
    (keyPEM : Option ℕ) : Bool × Files :=
  let f := { f with ca := w.ca.apply f.ca caPEM }
  if w.ca ≠ .done then (false, f)
  else
    let f := { f with certificate := w.certificate.apply f.certificate certPEM }
    if w.certificate ≠ .done then (false, f)
    else
      match keyPEM with
      | none => (true, f)
      | some keyPEM =>
        let f := { f with key := w.key.apply f.key keyPEM }
        (decide (w.key = .done), f)

/-! ## Pushes -/

/-- One arrival of a push at a peer.  `admitted` says whether the peer lets the request
through: its sender is registered as a sponsor and both texts are there. -/
structure Delivery where
  admitted : Bool
  writes : PEMWrites
  readable : Bool

/-- `HandleClusterRotate`, and whether it answers that it rotated. -/
def handleClusterRotate (caCert : List ℕ) (nodeCert : Certificate) (d : Delivery)
    (n : Node) : Bool × Node :=
  if !d.admitted then (false, n)
  else
    let r := writeNodePEMs d.writes n.disk caCert nodeCert none
    let n := { n with disk := r.2 }
    if !r.1 then (false, n)
    else reloadTLSConfig d.readable n

/-- What happens to a push.  The router tries one route after the other until there is an
answer, so that a push can arrive more than once; `answered` tells whether the answer to
the last arrival came back. -/
structure Push where
  signed : Bool
  deliveries : List Delivery
  answered : Bool

/-- The peer as it is known to the authority, and its node. -/
structure Peer extends Node where
  cached : Option ℕ

/-- A node after the deliveries of a push, and whether it confirmed the last one. -/
def receive (caCert : List ℕ) (nodeCert : Certificate) (deliveries : List Delivery)
    (n : Node) : Bool × Node :=
  deliveries.foldl (fun r d => handleClusterRotate caCert nodeCert d r.2) (false, n)

def rotateTLS (caCert : List ℕ) (nodeCert : Certificate) (o : Push) (n : Node) :
    Bool × Node :=
  let r := receive caCert nodeCert o.deliveries n
  (r.1 && o.answered, r.2)

/-- What `RotateCAAndResignPeers` does for one peer, and whether it went well. -/
def push (ca : ℕ) (o : Push) (p : Peer) : Bool × Peer :=
  match p.cached with
  | none => (false, p)
  | some key =>
    if !o.signed then (false, p)
    else
      let r := rotateTLS [ca] ⟨ca, key⟩ o p.toNode
      (r.1, { p with toNode := r.2 })

/-! ## The authority -/

structure Authority extends Node where
  caKey : ℕ

/-- The cluster, as its authority has it registered. -/
structure Cluster where
  id : String
  authority : Authority
  registered : Finset String
  nodes : String → Peer

/-- The peers that `forEachPeer` goes through. -/
def Cluster.peers (c : Cluster) : Finset String := c.registered.erase c.id

/-- The new CA and the new key pair of the authority. -/
structure Staged where
  ca : ℕ
  key : ℕ

/-- The outcomes of what the authority does itself. -/
structure LocalOutcome where
  alive : Bool
  hasCAKey : Bool
  mkdirTemp : Bool
  rotateCA : Bool
  issueNodeCertificate : Bool
  readNewCA : Bool
  readOldCA : Bool
  readCAKey : Bool
  readOwnCert : Bool
  readOwnKey : Bool
  readOldCAKey : Bool
  writeCAKey : Write
  writePEMs : PEMWrites
  restoreCAKey : Write
  readable : Bool

/-- The authority gets as far as the pushes. -/
def LocalOutcome.prepared (o : LocalOutcome) : Bool :=
  o.alive && o.hasCAKey && o.mkdirTemp && o.rotateCA && o.issueNodeCertificate && o.readNewCA
    && o.readOldCA

/-- The authority with both CAs trusted. -/
def Authority.transitional (a : Authority) (ca : ℕ) : Authority :=
  { a with memory := { a.memory with trusted := a.disk.ca ++ [ca] } }

/-- The end of `RotateCAAndResignPeers`, when all peers have acknowledged.  `old` is the
material to go back to. -/
def Authority.commit (s : Staged) (o : LocalOutcome) (old : Material) (a : Authority) :
    Authority :=
  if !o.readCAKey then a
  else if !o.readOwnCert then a
  else if !o.readOwnKey then a
  else
    let oldCAKey := a.caKey
    let a := { a with caKey := o.writeCAKey.apply a.caKey s.ca }
    if o.writeCAKey ≠ .done then { a with memory := old }
    else
      let r := writeNodePEMs o.writePEMs a.disk [s.ca] ⟨s.ca, s.key⟩ (some s.key)
      let a := { a with disk := r.2 }
      if !r.1 then
        let caKey :=
          if o.readOldCAKey then o.restoreCAKey.apply a.caKey oldCAKey else a.caKey
        { a with caKey, memory := old }
      else { a with toNode := (reloadTLSConfig o.readable a.toNode).2 }

namespace Cluster

/-- The number of pushes that failed. -/
def pushFail (c : Cluster) (s : Staged) (pushes : String → Push) : ℕ :=
  (c.peers.filter fun p => ¬ (push s.ca (pushes p) (c.nodes p)).1).card

def rotateCAAndResignPeers (c : Cluster) (s : Staged) (o : LocalOutcome)
    (pushes : String → Push) : Cluster :=
  if !o.prepared then c
  else
    let old := c.authority.memory
    let authority := c.authority.transitional s.ca
    let nodes := fun p =>
      if p ∈ c.peers then (push s.ca (pushes p) (c.nodes p)).2 else c.nodes p
    if c.pushFail s pushes > 0 then
      { c with nodes, authority := { authority with memory := old } }
    else { c with nodes, authority := authority.commit s o old }

end Cluster

/-! ## Holding together -/

/-- A node that runs on `x` accepts the certificate of a node that runs on `y`; a node
without material does not run. -/
def Accepts : Option Material → Option Material → Prop
  | some x, some y => y.certificate.issuer ∈ x.trusted
  | _, _ => False

instance : ∀ x y, Decidable (Accepts x y)
  | some x, some y => inferInstanceAs (Decidable (y.certificate.issuer ∈ x.trusted))
  | none, _ => .isFalse id
  | some _, none => .isFalse id

/-- The authority and all its peers accept each other, when every node runs on what `run`
finds in it. -/
def Cluster.Together (c : Cluster) (run : Node → Option Material) : Prop :=
  ∀ p ∈ c.peers,
    Accepts (run c.authority.toNode) (run (c.nodes p).toNode) ∧
    Accepts (run (c.nodes p).toNode) (run c.authority.toNode) ∧
    ∀ q ∈ c.peers, q ≠ p → Accepts (run (c.nodes p).toNode) (run (c.nodes q).toNode)

instance (c : Cluster) (run : Node → Option Material) : Decidable (c.Together run) :=
  inferInstanceAs (Decidable (∀ p ∈ c.peers, _))

/-- The cluster is not split, neither as it runs nor after all nodes restart. -/
def Cluster.Whole (c : Cluster) : Prop :=
  c.Together (fun n => some n.memory) ∧ c.Together fun n => n.disk.loadNodeTLS

instance (c : Cluster) : Decidable c.Whole :=
  inferInstanceAs (Decidable (_ ∧ _))

/-- The new CA has signed none of the certificates of the authority. -/
def Staged.Fresh (s : Staged) (c : Cluster) : Prop :=
  c.authority.memory.certificate.issuer ≠ s.ca ∧ c.authority.disk.certificate.issuer ≠ s.ca

/-! ## What decides -/

/-- The delivery changes the files of the peer. -/
def Delivery.Reaches (d : Delivery) : Prop := d.admitted ∧ d.writes.ca ≠ .failed

instance (d : Delivery) : Decidable d.Reaches := inferInstanceAs (Decidable (_ ∧ _))

/-- Nothing goes wrong while the peer handles the delivery. -/
def Delivery.Completes (d : Delivery) : Prop :=
  d.admitted ∧ d.writes.ca = .done ∧ d.writes.certificate = .done ∧ d.readable

instance (d : Delivery) : Decidable d.Completes := inferInstanceAs (Decidable (_ ∧ _))

/-- The push changes the files of the peer. -/
def Push.Reaches (o : Push) (p : Peer) : Prop :=
  p.cached.isSome ∧ o.signed ∧ ∃ d ∈ o.deliveries, d.Reaches

instance (o : Push) (p : Peer) : Decidable (o.Reaches p) :=
  inferInstanceAs (Decidable (_ ∧ _))

/-- The peer installs the push, and the authority learns of it. -/
def Push.Acknowledged (o : Push) (p : Peer) : Prop :=
  p.cached = some p.disk.key ∧ o.signed ∧ o.answered ∧
    ∃ d ∈ o.deliveries.getLast?, d.Completes

instance (o : Push) (p : Peer) : Decidable (o.Acknowledged p) :=
  inferInstanceAs (Decidable (_ ∧ _))

/-- Every file operation of the authority after the pushes goes well. -/
def LocalOutcome.Commits (o : LocalOutcome) : Prop :=
  (o.readCAKey ∧ o.readOwnCert ∧ o.readOwnKey) ∧ o.writeCAKey = .done ∧
    (o.writePEMs.ca = .done ∧ o.writePEMs.certificate = .done ∧ o.writePEMs.key = .done) ∧
    o.readable

instance (o : LocalOutcome) : Decidable o.Commits := inferInstanceAs (Decidable (_ ∧ _))

/-! ## What a push does -/

/-- A node that runs on the CA `ca` alone, in memory and on disk. -/
def Node.on (ca key : ℕ) : Node := ⟨⟨[ca], ⟨ca, key⟩⟩, ⟨[ca], ⟨ca, key⟩, key⟩⟩

theorem Node.on_loads (ca key : ℕ) :
    (Node.on ca key).disk.loadNodeTLS = some (Node.on ca key).memory := by
  simp [Node.on, Files.loadNodeTLS]

theorem accepts_of_loaded {f g : Files} (h : Accepts f.loadNodeTLS g.loadNodeTLS) :
    g.certificate.issuer ∈ f.ca := by
  unfold Files.loadNodeTLS at h
  split_ifs at h
  all_goals first
    | exact h
    | exact False.elim h

theorem Push.Acknowledged.reaches {o : Push} {p : Peer} (h : o.Acknowledged p) :
    o.Reaches p := by
  obtain ⟨hcached, hsigned, -, d, hlast, hadmitted, hca, -⟩ := h
  refine ⟨by simp [hcached], hsigned, d, List.mem_of_getLast? hlast, hadmitted, ?_⟩
  simp [hca]

variable {deliveries : List Delivery}

section Push

variable {ca key : ℕ} {d : Delivery} {n : Node}

theorem handleClusterRotate_of_not_reaches (h : ¬ d.Reaches) :
    handleClusterRotate [ca] ⟨ca, key⟩ d n = (false, n) := by
  by_cases hadmitted : d.admitted
  · have hca : d.writes.ca = .failed := by
      by_contra hne
      exact h ⟨hadmitted, hne⟩
    simp [handleClusterRotate, hadmitted, writeNodePEMs, hca, Write.apply]
  · simp [handleClusterRotate, hadmitted]

@[simp] theorem reloadTLSConfig_disk (readable : Bool) (n : Node) :
    (reloadTLSConfig readable n).2.disk = n.disk := by
  unfold reloadTLSConfig
  split <;> rfl

theorem writeNodePEMs_ca (w : PEMWrites) (f : Files) (caPEM : List ℕ)
    (certPEM : Certificate) (keyPEM : Option ℕ) :
    (writeNodePEMs w f caPEM certPEM keyPEM).2.ca = w.ca.apply f.ca caPEM := by
  unfold writeNodePEMs
  cases keyPEM <;> simp only <;> split_ifs <;> rfl

theorem writeNodePEMs_key (w : PEMWrites) (f : Files) (caPEM : List ℕ)
    (certPEM : Certificate) :
    (writeNodePEMs w f caPEM certPEM none).2.key = f.key := by
  unfold writeNodePEMs
  simp only
  split_ifs <;> rfl

theorem handleClusterRotate_disk (h : d.admitted) :
    (handleClusterRotate [ca] ⟨ca, key⟩ d n).2.disk =
      (writeNodePEMs d.writes n.disk [ca] ⟨ca, key⟩ none).2 := by
  simp only [handleClusterRotate, h, Bool.not_true, Bool.false_eq_true, if_false]
  split_ifs
  · rfl
  · exact reloadTLSConfig_disk _ _

theorem handleClusterRotate_key :
    (handleClusterRotate [ca] ⟨ca, key⟩ d n).2.disk.key = n.disk.key := by
  by_cases hadmitted : d.admitted
  · rw [handleClusterRotate_disk hadmitted, writeNodePEMs_key]
  · simp [handleClusterRotate, hadmitted]

theorem handleClusterRotate_of_reaches (h : d.Reaches) :
    (handleClusterRotate [ca] ⟨ca, key⟩ d n).2.disk.ca = [ca] := by
  rw [handleClusterRotate_disk h.1, writeNodePEMs_ca]
  cases hca : d.writes.ca with
  | failed => exact absurd hca h.2
  | done | unsynced => rfl

theorem handleClusterRotate_confirms :
    (handleClusterRotate [ca] ⟨ca, key⟩ d n).1 = true ↔ d.Completes ∧ key = n.disk.key := by
  by_cases hadmitted : d.admitted
  swap
  · simp [handleClusterRotate, hadmitted, Delivery.Completes]
  by_cases hca : d.writes.ca = .done
  swap
  · simp [handleClusterRotate, hadmitted, writeNodePEMs, hca, Delivery.Completes]
  by_cases hcert : d.writes.certificate = .done
  swap
  · simp [handleClusterRotate, hadmitted, writeNodePEMs, hca, hcert, Delivery.Completes]
  by_cases hreadable : d.readable
  swap
  · simp [handleClusterRotate, hadmitted, writeNodePEMs, hca, hcert, Delivery.Completes,
      reloadTLSConfig, hreadable]
  by_cases hkey : key = n.disk.key <;>
    simp [handleClusterRotate, hadmitted, writeNodePEMs, hca, hcert, Delivery.Completes,
      reloadTLSConfig, hreadable, Write.apply, Files.loadNodeTLS, hkey]

theorem handleClusterRotate_installs
    (h : (handleClusterRotate [ca] ⟨ca, key⟩ d n).1 = true) :
    (handleClusterRotate [ca] ⟨ca, key⟩ d n).2 = .on ca key := by
  obtain ⟨⟨hadmitted, hca, hcert, hreadable⟩, hkey⟩ := handleClusterRotate_confirms.mp h
  simp [handleClusterRotate, hadmitted, writeNodePEMs, hca, hcert, reloadTLSConfig, hreadable,
    Write.apply, Files.loadNodeTLS, hkey, Node.on]

theorem receive_append (deliveries : List Delivery) :
    receive [ca] ⟨ca, key⟩ (deliveries ++ [d]) n =
      handleClusterRotate [ca] ⟨ca, key⟩ d (receive [ca] ⟨ca, key⟩ deliveries n).2 := by
  simp [receive]

theorem receive_key (deliveries : List Delivery) :
    (receive [ca] ⟨ca, key⟩ deliveries n).2.disk.key = n.disk.key := by
  induction deliveries using List.reverseRecOn with
  | nil => rfl
  | append_singleton deliveries d ih => rw [receive_append, handleClusterRotate_key, ih]

theorem receive_of_not_reaches (h : ¬ ∃ d ∈ deliveries, d.Reaches) :
    receive [ca] ⟨ca, key⟩ deliveries n = (false, n) := by
  induction deliveries using List.reverseRecOn with
  | nil => rfl
  | append_singleton deliveries d ih =>
    have hd : ¬ d.Reaches := fun hd => h ⟨d, by simp, hd⟩
    have hbefore : ¬ ∃ d ∈ deliveries, d.Reaches :=
      fun ⟨e, he, hreaches⟩ => h ⟨e, by simp [he], hreaches⟩
    rw [receive_append, ih hbefore, handleClusterRotate_of_not_reaches hd]

/-- Once the CA file is the new one it stays the new one: a later delivery writes the same
or nothing. -/
theorem receive_of_reaches (h : ∃ d ∈ deliveries, d.Reaches) :
    (receive [ca] ⟨ca, key⟩ deliveries n).2.disk.ca = [ca] := by
  induction deliveries using List.reverseRecOn with
  | nil => simp at h
  | append_singleton deliveries d ih =>
    rw [receive_append]
    by_cases hd : d.Reaches
    · exact handleClusterRotate_of_reaches hd
    rw [handleClusterRotate_of_not_reaches hd]
    obtain ⟨e, he, hreaches⟩ := h
    rcases List.mem_append.mp he with he | he
    · exact ih ⟨e, he, hreaches⟩
    · obtain rfl : e = d := by simpa using he
      exact absurd hreaches hd

theorem receive_confirms (deliveries : List Delivery) :
    (receive [ca] ⟨ca, key⟩ deliveries n).1 = true ↔
      key = n.disk.key ∧ ∃ d ∈ deliveries.getLast?, d.Completes := by
  induction deliveries using List.reverseRecOn with
  | nil => simp [receive]
  | append_singleton deliveries d ih =>
    rw [receive_append, handleClusterRotate_confirms, receive_key]
    simp [and_comm]

theorem receive_installs (h : (receive [ca] ⟨ca, key⟩ deliveries n).1 = true) :
    (receive [ca] ⟨ca, key⟩ deliveries n).2 = .on ca key := by
  induction deliveries using List.reverseRecOn with
  | nil => simp [receive] at h
  | append_singleton deliveries d ih =>
    rw [receive_append] at h ⊢
    exact handleClusterRotate_installs h

variable {o : Push} {p : Peer}

theorem push_of_not_reaches (h : ¬ o.Reaches p) : push ca o p = (false, p) := by
  obtain ⟨n, cached⟩ := p
  rcases cached with _ | key
  · rfl
  by_cases hsigned : o.signed
  swap
  · simp [push, hsigned]
  have hdeliveries : ¬ ∃ d ∈ o.deliveries, d.Reaches :=
    fun hd => h ⟨rfl, hsigned, hd⟩
  simp [push, hsigned, rotateTLS, receive_of_not_reaches hdeliveries]

/-- A push that reaches a peer leaves it with the new CA on disk. -/
theorem push_reaches (h : o.Reaches p) : (push ca o p).2.disk.ca = [ca] := by
  obtain ⟨hcached, hsigned, hdeliveries⟩ := h
  obtain ⟨key, hkey⟩ := Option.isSome_iff_exists.mp hcached
  simp [push, hkey, hsigned, rotateTLS, receive_of_reaches hdeliveries]

theorem push_succeeds : (push ca o p).1 = true ↔ o.Acknowledged p := by
  unfold push Push.Acknowledged
  rcases hcached : p.cached with _ | key
  · simp
  by_cases hsigned : o.signed
  · simp only [hsigned, Bool.not_true, Bool.false_eq_true, if_false, rotateTLS,
      Bool.and_eq_true, receive_confirms, Option.some.injEq, true_and]
    tauto
  · simp [hsigned]

/-- A push that is acknowledged leaves the peer on the new CA, in memory and on disk. -/
theorem push_acknowledged (h : o.Acknowledged p) :
    (push ca o p).2.toNode = .on ca p.disk.key := by
  obtain ⟨hcached, hsigned, hanswered, hlast⟩ := h
  have hconfirms : (receive [ca] ⟨ca, p.disk.key⟩ o.deliveries p.toNode).1 = true :=
    (receive_confirms _).mpr ⟨rfl, hlast⟩
  simp [push, hcached, hsigned, rotateTLS, receive_installs hconfirms]

end Push

/-! ## What the authority does -/

section Commit

variable {s : Staged} {o : LocalOutcome} {old : Material} {a : Authority}

theorem commit_of_commits (h : o.Commits) : (a.commit s o old).toNode = .on s.ca s.key := by
  obtain ⟨⟨hcaKey, hcert, hkey⟩, hwrite, ⟨hca, hcertificate, hown⟩, hreadable⟩ := h
  simp [Authority.commit, hcaKey, hcert, hkey, hwrite, writeNodePEMs, hca, hcertificate, hown,
    Write.apply, reloadTLSConfig, hreadable, Files.loadNodeTLS, Node.on]

/-- Whatever goes wrong, the authority is left with the certificate it had. -/
theorem commit_of_not_commits (h : ¬ o.Commits)
    (hold : a.memory.certificate = old.certificate) :
    (a.commit s o old).memory.certificate = old.certificate := by
  by_cases hreads : o.readCAKey ∧ o.readOwnCert ∧ o.readOwnKey
  swap
  · unfold Authority.commit
    split_ifs <;> simp_all
  obtain ⟨hcaKey, hcert, hkey⟩ := hreads
  by_cases hwrite : o.writeCAKey = .done
  swap
  · simp [Authority.commit, hcaKey, hcert, hkey, hwrite]
  by_cases hpems : o.writePEMs.ca = .done ∧ o.writePEMs.certificate = .done ∧
      o.writePEMs.key = .done
  swap
  · have hfails : ∀ f, (writeNodePEMs o.writePEMs f [s.ca] ⟨s.ca, s.key⟩ (some s.key)).1
        = false := by
      intro f
      unfold writeNodePEMs
      simp only
      split_ifs <;> simp_all
    simp [Authority.commit, hcaKey, hcert, hkey, hwrite, hfails]
  have hreadable : o.readable = false := by
    by_contra hreadable
    exact h ⟨⟨hcaKey, hcert, hkey⟩, hwrite, hpems, by simpa using hreadable⟩
  obtain ⟨hca, hcertificate, hown⟩ := hpems
  simp [Authority.commit, hcaKey, hcert, hkey, hwrite, writeNodePEMs, hca, hcertificate, hown,
    reloadTLSConfig, hreadable, hold]

end Commit

/-! ## The whole rotation -/

section Rotation

variable {c : Cluster} {s : Staged} {o : LocalOutcome} {pushes : String → Push}

theorem pushFail_pos :
    c.pushFail s pushes > 0 ↔ ∃ p ∈ c.peers, ¬ (pushes p).Acknowledged (c.nodes p) := by
  rw [Cluster.pushFail, gt_iff_lt, Finset.card_pos]
  simp only [Finset.Nonempty, Finset.mem_filter, push_succeeds]

@[simp] theorem rotate_peers : (c.rotateCAAndResignPeers s o pushes).peers = c.peers := by
  unfold Cluster.rotateCAAndResignPeers
  split_ifs <;> rfl

variable (hprepared : o.prepared)
include hprepared

theorem rotate_nodes {p : String} (hp : p ∈ c.peers) :
    (c.rotateCAAndResignPeers s o pushes).nodes p
      = (push s.ca (pushes p) (c.nodes p)).2 := by
  simp only [Cluster.rotateCAAndResignPeers, hprepared, Bool.not_true, Bool.false_eq_true, if_false]
  split_ifs <;> simp [hp]

theorem rotate_authority_of_fail
    (h : ∃ p ∈ c.peers, ¬ (pushes p).Acknowledged (c.nodes p)) :
    (c.rotateCAAndResignPeers s o pushes).authority = c.authority := by
  simp [Cluster.rotateCAAndResignPeers, hprepared, pushFail_pos.mpr h, Authority.transitional]

theorem rotate_authority_of_success
    (h : ∀ p ∈ c.peers, (pushes p).Acknowledged (c.nodes p)) :
    (c.rotateCAAndResignPeers s o pushes).authority =
      (c.authority.transitional s.ca).commit s o c.authority.memory := by
  have hfail : ¬ c.pushFail s pushes > 0 := by
    rw [pushFail_pos]
    push Not
    exact h
  simp [Cluster.rotateCAAndResignPeers, hprepared, hfail]

/-- When no push reaches a peer, all nodes are as they were. -/
theorem rotate_unreached (h : ∀ p ∈ c.peers, ¬ (pushes p).Reaches (c.nodes p))
    (hfail : ∃ p ∈ c.peers, ¬ (pushes p).Acknowledged (c.nodes p))
    (run : Node → Option Material) :
    (c.rotateCAAndResignPeers s o pushes).Together run ↔ c.Together run := by
  have hnodes : ∀ p ∈ c.peers, (c.rotateCAAndResignPeers s o pushes).nodes p = c.nodes p := by
    intro p hp
    rw [rotate_nodes hprepared hp, push_of_not_reaches (h p hp)]
  unfold Cluster.Together
  rw [rotate_peers, rotate_authority_of_fail hprepared hfail]
  refine forall₂_congr fun p hp => ?_
  rw [hnodes p hp]
  refine and_congr_right fun _ => and_congr_right fun _ => ?_
  refine forall₂_congr fun q hq => ?_
  rw [hnodes q hq]

theorem rotate_whole (h : ∀ p ∈ c.peers, (pushes p).Acknowledged (c.nodes p))
    (hcommits : o.Commits) : (c.rotateCAAndResignPeers s o pushes).Whole := by
  have hauthority : (c.rotateCAAndResignPeers s o pushes).authority.toNode = .on s.ca s.key := by
    rw [rotate_authority_of_success hprepared h, commit_of_commits hcommits]
  have hnodes : ∀ p ∈ c.peers, ((c.rotateCAAndResignPeers s o pushes).nodes p).toNode =
      .on s.ca (c.nodes p).disk.key := by
    intro p hp
    rw [rotate_nodes hprepared hp, push_acknowledged (h p hp)]
  have htogether : ∀ run : Node → Option Material,
      (∀ key, run (.on s.ca key) = some (Node.on s.ca key).memory) →
        (c.rotateCAAndResignPeers s o pushes).Together run := by
    intro run hrun p hp
    rw [rotate_peers] at hp ⊢
    rw [hauthority, hnodes p hp, hrun, hrun]
    refine ⟨by simp [Accepts, Node.on], by simp [Accepts, Node.on], fun q hq _ => ?_⟩
    rw [hnodes q hq, hrun]
    simp [Accepts, Node.on]
  exact ⟨htogether _ fun _ => rfl, htogether _ fun key => Node.on_loads s.ca key⟩

/-- A peer that a push has reached does not accept the old authority once it restarts. -/
theorem rotate_split_by_push (hfresh : s.Fresh c)
    (hfail : ∃ p ∈ c.peers, ¬ (pushes p).Acknowledged (c.nodes p))
    {p : String} (hp : p ∈ c.peers) (hreaches : (pushes p).Reaches (c.nodes p)) :
    ¬ (c.rotateCAAndResignPeers s o pushes).Whole := by
  rintro ⟨-, hdisk⟩
  obtain ⟨-, haccepts, -⟩ := hdisk p (by rwa [rotate_peers])
  rw [rotate_nodes hprepared hp, rotate_authority_of_fail hprepared hfail] at haccepts
  have hissuer := accepts_of_loaded haccepts
  rw [push_reaches hreaches, List.mem_singleton] at hissuer
  exact hfresh.2 hissuer

/-- Peers on the new CA do not accept an authority that could not commit. -/
theorem rotate_split_by_commit (hfresh : s.Fresh c)
    (h : ∀ p ∈ c.peers, (pushes p).Acknowledged (c.nodes p)) {p : String} (hp : p ∈ c.peers)
    (hcommits : ¬ o.Commits) : ¬ (c.rotateCAAndResignPeers s o pushes).Whole := by
  rintro ⟨hmemory, -⟩
  obtain ⟨-, haccepts, -⟩ := hmemory p (by rwa [rotate_peers])
  rw [rotate_nodes hprepared hp, rotate_authority_of_success hprepared h,
    push_acknowledged (h p hp)] at haccepts
  have hcertificate : ((c.authority.transitional s.ca).commit s o
      c.authority.memory).memory.certificate = c.authority.memory.certificate :=
    commit_of_not_commits hcommits rfl
  simp only [Accepts, hcertificate, Node.on, List.mem_singleton] at haccepts
  exact hfresh.1 haccepts

end Rotation

/-- A cluster of the authority `"ca"` and two peers, all on the CA 0. -/
def clusterOfThree : Cluster where
  id := "ca"
  authority := ⟨.on 0 0, 0⟩
  registered := {"ca", "a", "b"}
  nodes := fun p => if p = "a" then ⟨.on 0 1, some 1⟩ else ⟨.on 0 2, some 2⟩

/-- No local operation goes wrong. -/
def LocalOutcome.fine : LocalOutcome :=
  ⟨true, true, true, true, true, true, true, true, true, true, true, .done,
    ⟨.done, .done, .done⟩, .done, true⟩

/-- A push that arrives once and is answered. -/
def Push.fine : Push := ⟨true, [⟨true, ⟨.done, .done, .done⟩, true⟩], true⟩

/-- A push that does not arrive. -/
def Push.lost : Push := ⟨true, [], false⟩

end Proxyma.Rotation
