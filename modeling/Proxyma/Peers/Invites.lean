import Proxyma.Lib.Bucket
import Proxyma.Lib.Threads
import Proxyma.Protocol

/-!
# Invitations

A node joins with the secret of an invitation.  `HandleClusterJoin` checks the secret,
consumes it, signs the request, reads the certificate of the authority and answers; if
one of the last two fails it puts the invitation back.  The operations of the
`InviteManager` are critical sections of one mutex, everything between them can
interleave.

An invitation is a coin.  It is in the store, or it is in the hands of the one handler
that has consumed it, or it has been spent on an answer with a certificate; minting makes
it, and a crash may lose it.  This is the budget `prices`.  What a coin is worth, its
expiration, is the same wherever it is, by the rules `honest`.

A failing write of the store has no effect.  Which writes fail can change at any time, so
a crash in the middle of a sweep is one after a sweep whose other deletions failed.
-/

namespace Proxyma.Invites

open Keyed Atomic Atomic.Prog

variable {expires : String → ℤ} {entries : List (String × ℤ)} {sweepErr : Option GoError}

/-! ## The invite manager -/

/-- The calls that currently fail, and what the authority makes of a request. -/
structure Surroundings where
  now : ℤ := 0
  saveInvite : Option GoError := none
  deleteInvite : String → Option GoError := fun _ => none
  loadInvites : Option GoError := none
  signCSR : String → Except GoError String := fun csr => .ok csr
  readCAPEM : Except GoError String := .ok ""

/-- The durable invitations, those in memory, the answers with a certificate that were
given, each with the time its secret was consumed, and the surroundings. -/
structure State where
  store : Bucket String ℤ
  pendingInvites : Bucket String ℤ
  issued : List (String × ℤ)
  around : Surroundings

def add (secret : String) (expiration : ℤ) (s : State) : Option GoError × State :=
  match s.around.saveInvite with
  | some err => (some (.wrapf "save invite: %w" [] err), s)
  | none => (none, { s with
      store := s.store.put secret expiration
      pendingInvites := s.pendingInvites.put secret expiration })

def check (secret : String) (s : State) : Bool :=
  (s.pendingInvites.get secret).any fun expiration => s.around.now < expiration

/-- What `CheckAndConsume` returns; with a consumed secret comes the time. -/
inductive Consumption
  | failed (err : GoError)
  | refused
  | consumed (expiration now : ℤ)

/-- Delete an invitation, first in the store. -/
def drop (secret : String) (s : State) : Option GoError × State :=
  match s.around.deleteInvite secret with
  | some err => (some err, s)
  | none => (none, { s with
      store := s.store.erase secret
      pendingInvites := s.pendingInvites.erase secret })

def checkAndConsume (secret : String) (s : State) : Consumption × State :=
  match s.pendingInvites.get secret with
  | none => (.refused, s)
  | some expiration =>
    match drop secret s with
    | (some err, s') =>
      if s.around.now < expiration then (.failed (.wrapf "consume invite: %w" [] err), s')
      else (.failed (.wrapf "delete expired invite: %w" [] err), s')
    | (none, s') =>
      if s.around.now < expiration then (.consumed expiration s.around.now, s')
      else (.refused, s')

/-- The loop of `Sweep` over the pending invitations. -/
def sweepEntries : List (String × ℤ) → Option GoError → State → Option GoError × State
  | [], sweepErr, s => (sweepErr, s)
  | (secret, expiration) :: rest, sweepErr, s =>
    if s.around.now < expiration then sweepEntries rest sweepErr s
    else
      match drop secret s with
      | (some err, s') => sweepEntries rest
          (GoError.joinErrors sweepErr (some (.wrapf "delete expired invite: %w" [] err))) s'
      | (none, s') => sweepEntries rest sweepErr s'

def sweep (s : State) : Option GoError × State := sweepEntries s.pendingInvites.entries none s

def newInviteManager (s : State) : Option GoError × State :=
  match s.around.loadInvites with
  | some err => (some (.wrapf "load pending invites: %w" [] err), s)
  | none =>
    match sweep { s with pendingInvites := s.store } with
    | (some err, s') => (some (.wrapf "sweep pending invites: %w" [] err), s')
    | (none, s') => (none, s')

/-! ## Joining -/

/-- The steps of a handler that others can come between. -/
inductive Action : Type → Type 1
  | check (secret : String) : Action Bool
  | checkAndConsume (secret : String) : Action Consumption
  | add (secret : String) (expiration : ℤ) : Action (Option GoError)
  | sweep : Action (Option GoError)
  | signCSR (csr : String) : Action (Except GoError String)
  | readCAPEM : Action (Except GoError String)
  | issue (secret : String) (consumedAt : ℤ) : Action Unit

/-- What the steps do. -/
def exec : {α : Type} → Action α → State → α × State
  | _, .check secret, s => (check secret s, s)
  | _, .checkAndConsume secret, s => checkAndConsume secret s
  | _, .add secret expiration, s => add secret expiration s
  | _, .sweep, s => sweep s
  | _, .signCSR csr, s => (s.around.signCSR csr, s)
  | _, .readCAPEM, s => (s.around.readCAPEM, s)
  | _, .issue secret consumedAt, s => ((), { s with issued := s.issued ++ [(secret, consumedAt)] })

/-- The node as a handler of these steps. -/
def node : Handler Action State := ⟨exec⟩

/-- `JoinRequest`. -/
structure JoinRequest where
  secret : String
  address : String
  id : String
  csr : String

/-- The answer to a join request. -/
inductive JoinReply
  | error (status : ℕ) (message : String)
  | joined (certificate caCert : String)

/-- What a handler finds in a request: the host of its address and the common name of its
certificate request. -/
structure Reading where
  host : String → Option String
  csrCommonName : String → Except GoError String

/-- The checks of `HandleClusterJoin` on the request, with the answer if one fails. -/
def invalidRequest (read : Reading) (req : JoinRequest) : Option JoinReply :=
  if req.address = "" then some (.error 400 "Address is required")
  else if (read.host req.address).getD "" = "" then some (.error 400 "Invalid address format")
  else if req.id = "" then some (.error 400 "ID is required")
  else
    match read.csrCommonName req.csr with
    | .error _ => some (.error 400 "Invalid CSR")
    | .ok csrCN =>
      if csrCN ≠ req.id then some (.error 400 "CSR CommonName must match join ID") else none

/-- `HandleClusterJoin` once it has consumed the secret. -/
def signAndAnswer (req : JoinRequest) (expiration now : ℤ) : Prog Action JoinReply := do
  match ← perform (.signCSR req.csr) with
  | .error _ =>
    let _ ← perform (.add req.secret expiration)
    return .error 500 "Failed to generate certificate"
  | .ok newCertPEM =>
    match ← perform .readCAPEM with
    | .error _ =>
      let _ ← perform (.add req.secret expiration)
      return .error 500 "Internal error reading CA"
    | .ok caCertPEM =>
      perform (.issue req.secret now)
      return .joined newCertPEM caCertPEM

def handleClusterJoin (read : Reading) (req : JoinRequest) : Prog Action JoinReply := do
  if !(← perform (.check req.secret)) then return .error 401 "Invalid or expired token"
  else
    match invalidRequest read req with
    | some reply => return reply
    | none =>
      match ← perform (.checkAndConsume req.secret) with
      | .failed _ => return .error 500 "Failed to consume invite"
      | .refused => return .error 401 "Invalid or expired token"
      | .consumed expiration now => signAndAnswer req expiration now

/-! ## Nodes that run -/

/-- A node that is up or down, its handlers, and the secrets it has minted. -/
structure Node where
  up : Bool
  pool : Pool Action State
  minted : List String

/-- A new node that is not up yet. -/
def Node.fresh : Node := ⟨false, ⟨⟨.empty, .empty, [], {}⟩, []⟩, []⟩

/-- The steps of a node.  A secret is minted once, with the expiration `expires`; while the
node is up its handlers make steps and requests come in, and at any time its surroundings
may change or it may crash. -/
inductive Node.Step (read : Reading) (expires : String → ℤ) : Node → Node → Prop
  | act {n : Node} {pool : Pool Action State} (hup : n.up = true) (h : Pool.Step node n.pool pool) :
      Step read expires n { n with pool := pool }
  | join {n : Node} (req : JoinRequest) (hup : n.up = true) :
      Step read expires n { n with
        pool := n.pool.spawn (handleClusterJoin read req >>= fun _ => .ret ()) }
  | mint {n : Node} (secret : String) (hup : n.up = true) (hnew : secret ∉ n.minted) :
      Step read expires n { n with
        pool := n.pool.spawn (perform (.add secret (expires secret)) >>= fun _ => .ret ())
        minted := secret :: n.minted }
  | sweep {n : Node} (hup : n.up = true) :
      Step read expires n { n with pool := n.pool.spawn (perform .sweep >>= fun _ => .ret ()) }
  | surroundings {n : Node} (around : Surroundings) :
      Step read expires n { n with pool := ⟨{ n.pool.state with around := around }, n.pool.threads⟩ }
  | crash {n : Node} :
      Step read expires n ⟨false, ⟨{ n.pool.state with pendingInvites := .empty }, []⟩, n.minted⟩
  | start {n : Node} (hdown : n.up = false) :
      Step read expires n ⟨(newInviteManager n.pool.state).1.isNone,
        ⟨(newInviteManager n.pool.state).2, n.pool.threads⟩, n.minted⟩

/-! ## What the operations keep -/

section Operations

variable {expires : String → ℤ} {s : State}

/-- What the disk and the answers tell: invitations have their expirations, and answers
were given to secrets that were consumed before theirs. -/
structure Durable (expires : String → ℤ) (s : State) : Prop where
  stored : ∀ secret expiration, s.store.get secret = some expiration →
    expiration = expires secret
  timely : ∀ answer ∈ s.issued, answer.2 < expires answer.1

/-- A node that is up has in memory what is on disk. -/
structure Mirrored (expires : String → ℤ) (s : State) : Prop extends Durable expires s where
  pending : s.pendingInvites = s.store

theorem Mirrored.drop (h : Mirrored expires s) (secret : String) :
    Mirrored expires (drop secret s).2 := by
  unfold Invites.drop
  cases s.around.deleteInvite secret with
  | some err => exact h
  | none =>
    refine ⟨⟨fun secret' expiration hget => ?_, h.timely⟩, ?_⟩
    · rw [Bucket.get_erase] at hget
      split_ifs at hget
      exact h.stored secret' expiration hget
    · change s.pendingInvites.erase secret = s.store.erase secret
      rw [h.pending]

theorem Mirrored.sweepEntries (h : Mirrored expires s) :
    Mirrored expires (sweepEntries entries sweepErr s).2 := by
  induction entries generalizing sweepErr s with
  | nil => exact h
  | cons entry rest ih =>
    obtain ⟨secret, expiration⟩ := entry
    rw [Invites.sweepEntries]
    split_ifs
    · exact ih h
    have hdrop := h.drop secret
    generalize Invites.drop secret s = out at hdrop ⊢
    obtain ⟨_ | err, s'⟩ := out
    · exact ih hdrop
    · exact ih hdrop

theorem Mirrored.checkAndConsume (h : Mirrored expires s) (secret : String) :
    Mirrored expires (checkAndConsume secret s).2 := by
  unfold Invites.checkAndConsume
  rcases s.pendingInvites.get secret with _ | expiration
  · exact h
  have hdrop := h.drop secret
  generalize Invites.drop secret s = out at hdrop ⊢
  obtain ⟨_ | err, s'⟩ := out <;> dsimp only <;> split_ifs <;> exact hdrop

/-- A secret is consumed before its expiration, which is returned. -/
theorem checkAndConsume_timely (h : Mirrored expires s) {secret : String} {expiration now : ℤ}
    {s' : State} (hout : checkAndConsume secret s = (.consumed expiration now, s')) :
    expiration = expires secret ∧ now < expires secret := by
  unfold Invites.checkAndConsume at hout
  rcases hget : s.pendingInvites.get secret with _ | stored
  · simp [hget] at hout
  have hstored : stored = expires secret := h.stored secret stored (h.pending ▸ hget)
  simp only [hget] at hout
  generalize drop secret s = out at hout
  obtain ⟨_ | err, s''⟩ := out <;> dsimp only at hout <;> split_ifs at hout with hnow
  · obtain ⟨hconsumed, -⟩ := Prod.mk.inj hout
    cases hconsumed
    exact ⟨hstored, hstored ▸ hnow⟩
  all_goals exact absurd (congrArg Prod.fst hout) (by simp)

/-- Invitations are added with their expiration, and answers given in time. -/
def honest (expires : String → ℤ) : Rules Action where
  allowed := fun
    | .add secret expiration => expiration = expires secret
    | .issue secret consumedAt => consumedAt < expires secret
    | _ => True
  answers := fun
    | .checkAndConsume secret, .consumed expiration now =>
      expiration = expires secret ∧ now < expires secret
    | _, _ => True

theorem honest_sound (expires : String → ℤ) : (honest expires).Sound node (Mirrored expires) := by
  intro α e s hallowed h
  cases e with
  | check secret => exact ⟨h, trivial⟩
  | checkAndConsume secret =>
    refine ⟨h.checkAndConsume secret, ?_⟩
    have htimely := fun {expiration now s'} =>
      @checkAndConsume_timely expires s h secret expiration now s'
    change (honest expires).answers (.checkAndConsume secret) (checkAndConsume secret s).1
    generalize checkAndConsume secret s = out at htimely
    obtain ⟨_ | _ | ⟨expiration, now⟩, s'⟩ := out
    · trivial
    · trivial
    · exact htimely rfl
  | add secret expiration =>
    refine ⟨?_, trivial⟩
    change Mirrored expires (add secret expiration s).2
    unfold add
    cases s.around.saveInvite with
    | some err => exact h
    | none =>
      refine ⟨⟨fun secret' expiration' hget => ?_, h.timely⟩, ?_⟩
      · rw [Bucket.get_put] at hget
        split_ifs at hget with hsame
        · rwa [← Option.some.inj hget, hsame]
        · exact h.stored secret' expiration' hget
      · change s.pendingInvites.put secret expiration = s.store.put secret expiration
        rw [h.pending]
  | sweep => exact ⟨h.sweepEntries, trivial⟩
  | signCSR _ | readCAPEM => exact ⟨h, trivial⟩
  | issue secret consumedAt =>
    refine ⟨⟨⟨h.stored, fun answer hanswer => ?_⟩, h.pending⟩, trivial⟩
    rcases List.mem_append.1 hanswer with hold | hnew
    · exact h.timely answer hold
    · rwa [List.mem_singleton.1 hnew]

theorem handleClusterJoin_honest (read : Reading) (req : JoinRequest) :
    (handleClusterJoin read req >>= fun _ => .ret ()).Obeys (honest expires) fun _ => True := by
  have hjoin : (handleClusterJoin read req).Obeys (honest expires) fun _ => True := by
    refine ⟨trivial, fun valid _ => ?_⟩
    rcases valid with _ | _
    · trivial
    change (match invalidRequest read req with
      | some reply => _ | none => _ : Prog Action JoinReply).Obeys _ _
    rcases invalidRequest read req with _ | reply
    swap
    · trivial
    refine ⟨trivial, fun out hout => ?_⟩
    cases out with
    | failed _ | refused => trivial
    | consumed expiration now =>
      refine ⟨trivial, fun signed _ => ?_⟩
      rcases signed with err | newCertPEM
      · exact ⟨hout.1, fun _ _ => trivial⟩
      refine ⟨trivial, fun caCert _ => ?_⟩
      cases caCert with
      | error err => exact ⟨hout.1, fun _ _ => trivial⟩
      | ok caCertPEM => exact ⟨hout.2, fun _ _ => trivial⟩
  exact hjoin.bind fun _ _ => trivial

/-! ## Coins -/

/-- To store a secret or to answer it costs the coin that consuming it brings in. -/
def prices (secret : String) : Prices Action where
  cost := fun
    | .add secret' _ => if secret' = secret then 1 else 0
    | .issue secret' _ => if secret' = secret then 1 else 0
    | _ => 0
  gain := fun
    | .checkAndConsume secret', .consumed _ _ => if secret' = secret then 1 else 0
    | _, _ => 0

/-- The coins of a secret that are among these invitations or were spent on answers. -/
def coins (secret : String) (invites : Bucket String ℤ) (issued : List (String × ℤ)) : ℕ :=
  (if (invites.get secret).isSome then 1 else 0) + (issued.map Prod.fst).count secret

/-- The coins of a secret that a node holds in memory. -/
def held (secret : String) (s : State) : ℕ := coins secret s.pendingInvites s.issued

theorem held_drop (secret dropped : String) (s : State) :
    held secret (drop dropped s).2 ≤ held secret s ∧
      ((drop dropped s).1 = none → (s.pendingInvites.get dropped).isSome →
        held secret (drop dropped s).2 + (if dropped = secret then 1 else 0) = held secret s) := by
  unfold drop
  cases s.around.deleteInvite dropped with
  | some err => exact ⟨le_rfl, by simp⟩
  | none =>
    simp only [held, coins, Bucket.get_erase]
    by_cases hsame : secret = dropped
    · subst hsame
      refine ⟨by simp, fun _ hsome => ?_⟩
      simp only [if_true, Option.isSome_none, Bool.false_eq_true, if_false, hsome]
      omega
    · simp [hsame, Ne.symm hsame]

theorem held_sweepEntries (secret : String) (s : State) :
    held secret (sweepEntries entries sweepErr s).2 ≤ held secret s := by
  induction entries generalizing sweepErr s with
  | nil => exact le_rfl
  | cons entry rest ih =>
    obtain ⟨dropped, expiration⟩ := entry
    rw [sweepEntries]
    split_ifs
    · exact ih s
    have hdrop := (held_drop secret dropped s).1
    generalize drop dropped s = out at hdrop ⊢
    obtain ⟨_ | err, s'⟩ := out
    · exact (ih s').trans hdrop
    · exact (ih s').trans hdrop

theorem held_checkAndConsume (secret consumed : String) (s : State) :
    held secret (checkAndConsume consumed s).2 +
      (prices secret).gain (.checkAndConsume consumed) (checkAndConsume consumed s).1 ≤
        held secret s := by
  unfold checkAndConsume
  rcases hget : s.pendingInvites.get consumed with _ | expiration
  · exact le_rfl
  have hdrop := held_drop secret consumed s
  rw [hget] at hdrop
  generalize drop consumed s = out at hdrop ⊢
  obtain ⟨_ | err, s'⟩ := out <;> dsimp only <;> split_ifs
  · exact (hdrop.2 rfl rfl).le
  · exact hdrop.1
  · exact hdrop.1
  · exact hdrop.1

theorem prices_balanced (secret : String) : (prices secret).Balanced node (held secret) := by
  intro α e s
  cases e with
  | check secret' => exact le_rfl
  | checkAndConsume secret' => exact held_checkAndConsume secret secret' s
  | add secret' expiration =>
    change held secret (add secret' expiration s).2 + 0 ≤
      held secret s + if secret' = secret then 1 else 0
    unfold add
    cases s.around.saveInvite with
    | some err => exact Nat.le_add_right _ _
    | none =>
      simp only [held, coins, Bucket.get_put]
      by_cases hsame : secret = secret'
      · subst hsame
        simp only [if_true, Option.isSome_some]
        split_ifs <;> omega
      · simp [hsame]
  | sweep => exact held_sweepEntries secret s
  | signCSR _ | readCAPEM => exact le_rfl
  | issue secret' consumedAt =>
    change held secret { s with issued := s.issued ++ [(secret', consumedAt)] } + 0 ≤
      held secret s + if secret' = secret then 1 else 0
    simp only [held, coins, List.map_append, List.count_append, List.map_cons, List.map_nil,
      List.count_singleton, beq_iff_eq]
    omega

theorem handleClusterJoin_spends (read : Reading) (req : JoinRequest) (secret : String) :
    (handleClusterJoin read req >>= fun _ => .ret ()).Spends (prices secret) (fun _ _ => True)
      0 := by
  have hjoin : (handleClusterJoin read req).Spends (prices secret) (fun _ _ => True) 0 := by
    refine ⟨le_rfl, fun valid => ?_⟩
    rcases valid with _ | _
    · trivial
    change (match invalidRequest read req with
      | some reply => _ | none => _ : Prog Action JoinReply).Spends _ _ _
    rcases invalidRequest read req with _ | reply
    swap
    · trivial
    refine ⟨le_rfl, fun out => ?_⟩
    cases out with
    | failed _ | refused => trivial
    | consumed expiration now =>
      -- The coin of the secret, if it is the one in question, pays for one of the
      -- three ways this goes on.
      refine ⟨Nat.zero_le _, fun signed => ?_⟩
      rcases signed with err | newCertPEM
      · exact ⟨by simp [prices], fun _ => trivial⟩
      refine ⟨Nat.zero_le _, fun caCert => ?_⟩
      cases caCert with
      | error _ | ok _ => exact ⟨by simp [prices], fun _ => trivial⟩
  exact hjoin.bind fun _ _ _ => trivial

end Operations

/-! ## Runs -/

/-- What holds of a node at all times. -/
structure Node.Sound (expires : String → ℤ) (n : Node) : Prop where
  durable : Durable expires n.pool.state
  fresh : n.minted.Nodup
  banked : ∀ secret, coins secret n.pool.state.store n.pool.state.issued ≤ n.minted.count secret
  up : n.up = true → n.pool.Sound (honest expires) (Mirrored expires) ∧
    ∀ secret, n.pool.Funded (prices secret) (held secret) (n.minted.count secret)
  down : n.up = false → n.pool.threads = []

theorem Mirrored.held_eq {s : State} (h : Mirrored expires s) (secret : String) :
    held secret s = coins secret s.store s.issued := by
  rw [held, h.pending]

theorem Node.sound_of_up {pool : Pool Action State} {minted : List String} (hfresh : minted.Nodup)
    (hpool : pool.Sound (honest expires) (Mirrored expires))
    (hfunded : ∀ secret, pool.Funded (prices secret) (held secret) (minted.count secret)) :
    Node.Sound expires ⟨true, pool, minted⟩ where
  durable := hpool.holds.toDurable
  fresh := hfresh
  banked := fun secret => by
    rw [← hpool.holds.held_eq]
    exact (hfunded secret).held_le
  up := fun _ => ⟨hpool, hfunded⟩
  down := fun h => absurd h (by simp)

theorem Node.Sound.start {n : Node} (h : n.Sound expires) (hdown : n.up = false) :
    Node.Sound expires ⟨(newInviteManager n.pool.state).1.isNone,
      ⟨(newInviteManager n.pool.state).2, n.pool.threads⟩, n.minted⟩ := by
  obtain ⟨up, ⟨s, threads⟩, minted⟩ := n
  obtain rfl : threads = [] := h.down hdown
  have hloaded : Mirrored expires { s with pendingInvites := s.store } :=
    ⟨⟨h.durable.stored, h.durable.timely⟩, rfl⟩
  have hswept : Mirrored expires (sweep { s with pendingInvites := s.store }).2 :=
    hloaded.sweepEntries
  have hheld : ∀ secret, held secret (sweep { s with pendingInvites := s.store }).2 ≤
      minted.count secret := fun secret => (held_sweepEntries secret _).trans (h.banked secret)
  unfold newInviteManager
  rcases s.around.loadInvites with _ | err
  swap
  · exact ⟨h.durable, h.fresh, h.banked, fun hup => absurd hup (by simp), fun _ => rfl⟩
  generalize sweep { s with pendingInvites := s.store } = out at hswept hheld
  obtain ⟨_ | err, s'⟩ := out
  · refine Node.sound_of_up h.fresh ⟨hswept, fun t ht => absurd ht List.not_mem_nil⟩ ?_
    exact fun secret => ⟨[], rfl, by simp, by simpa using hheld secret⟩
  · refine ⟨hswept.toDurable, h.fresh, fun secret => ?_, fun hup => absurd hup (by simp),
      fun _ => rfl⟩
    rw [← hswept.held_eq]
    exact hheld secret

theorem Node.Sound.step {read : Reading} {n n' : Node} (h : n.Sound expires)
    (hstep : Node.Step read expires n n') : n'.Sound expires := by
  cases hstep with
  | @act pool hup hact =>
    obtain ⟨hpool, hfunded⟩ := h.up hup
    rw [hup]
    exact Node.sound_of_up h.fresh (hpool.step (honest_sound expires) hact)
      fun secret => (hfunded secret).step (prices_balanced secret) hact
  | join req hup =>
    obtain ⟨hpool, hfunded⟩ := h.up hup
    rw [hup]
    exact Node.sound_of_up h.fresh (hpool.spawn (handleClusterJoin_honest read req))
      fun secret => (hfunded secret).spawn (handleClusterJoin_spends read req secret)
  | mint secret hup hnew =>
    obtain ⟨hpool, hfunded⟩ := h.up hup
    rw [hup]
    refine Node.sound_of_up (List.nodup_cons.2 ⟨hnew, h.fresh⟩)
      (hpool.spawn ⟨rfl, fun _ _ => trivial⟩) fun secret' => ?_
    rw [List.count_cons]
    refine (hfunded secret').spawn_with ⟨?_, fun _ => trivial⟩
    simp [prices]
  | sweep hup =>
    obtain ⟨hpool, hfunded⟩ := h.up hup
    rw [hup]
    exact Node.sound_of_up h.fresh (hpool.spawn ⟨trivial, fun _ _ => trivial⟩)
      fun secret => (hfunded secret).spawn ⟨le_rfl, fun _ => trivial⟩
  | surroundings around =>
    refine ⟨⟨h.durable.stored, h.durable.timely⟩, h.fresh, h.banked, fun hup => ?_, h.down⟩
    obtain ⟨hpool, hfunded⟩ := h.up hup
    refine ⟨⟨⟨⟨hpool.holds.stored, hpool.holds.timely⟩, hpool.holds.pending⟩, hpool.obeys⟩, ?_⟩
    exact fun secret => (hfunded secret).interfere le_rfl
  | crash =>
    exact ⟨⟨h.durable.stored, h.durable.timely⟩, h.fresh, h.banked,
      fun hup => absurd hup (by simp), fun _ => rfl⟩
  | start hdown => exact h.start hdown

theorem Node.sound_fresh (expires : String → ℤ) : Node.fresh.Sound expires where
  durable := ⟨fun secret expiration hget => absurd hget (by simp [Node.fresh]),
    fun answer hanswer => absurd hanswer List.not_mem_nil⟩
  fresh := List.nodup_nil
  banked := fun secret => by simp [Node.fresh, coins]
  up := fun hup => absurd hup (by simp [Node.fresh])
  down := fun _ => rfl

/-- Over every run of a node, at most one answer with a certificate is given for a secret,
none for one that was consumed when it had expired, and while the node is up its pending
invitations are the durable ones. -/
theorem invitations_single_use (read : Reading) (expires : String → ℤ) (n : Node)
    (hrun : Relation.ReflTransGen (Node.Step read expires) Node.fresh n) :
    (∀ secret, (n.pool.state.issued.map Prod.fst).count secret ≤ 1) ∧
      (∀ secret consumedAt, (secret, consumedAt) ∈ n.pool.state.issued →
        secret ∈ n.minted ∧ consumedAt < expires secret) ∧
      (n.up = true → n.pool.state.pendingInvites = n.pool.state.store) := by
  have hsound : n.Sound expires := by
    induction hrun with
    | refl => exact Node.sound_fresh expires
    | tail _ hstep ih => exact ih.step hstep
  have hcount : ∀ secret, (n.pool.state.issued.map Prod.fst).count secret ≤
      n.minted.count secret := fun secret => (Nat.le_add_left _ _).trans (hsound.banked secret)
  refine ⟨fun secret => ?_, fun secret consumedAt hmem => ⟨?_, hsound.durable.timely _ hmem⟩,
    fun hup => (hsound.up hup).1.holds.pending⟩
  · exact (hcount secret).trans (List.nodup_iff_count_le_one.1 hsound.fresh secret)
  · have hpos : 0 < (n.pool.state.issued.map Prod.fst).count secret :=
      List.count_pos_iff.2 (List.mem_map.2 ⟨_, hmem, rfl⟩)
    exact List.count_pos_iff.1 (hpos.trans_le (hcount secret))

theorem Node.runs (read : Reading) (expires : String → ℤ) (thread : Prog Action Unit) (s : State)
    (rest : List (Prog Action Unit)) (minted : List String) :
    Relation.ReflTransGen (Node.Step read expires) ⟨true, ⟨s, thread :: rest⟩, minted⟩
      ⟨true, ⟨(thread.run node s).2, .ret () :: rest⟩, minted⟩ :=
  (Pool.runs node thread s rest).lift (fun pool => (⟨true, pool, minted⟩ : Node))
    fun _ _ h => .act rfl h

/-- Any address and any request will do. -/
def lenient : Reading := ⟨fun address => some address, fun csr => .ok csr⟩

/-- An invitation is minted, and a node joins with it. -/
theorem invitations_single_use_joined :
    ∃ n, Relation.ReflTransGen (Node.Step lenient fun _ => 5) Node.fresh n ∧
      n.pool.state.issued = [("s", 0)] ∧
      ∀ secret, (n.pool.state.issued.map Prod.fst).count secret ≤ 1 := by
  let req : JoinRequest := ⟨"s", "https://b", "b", "b"⟩
  have hstart : Node.Step lenient (fun _ => 5) Node.fresh _ := .start rfl
  have hmint := ((Relation.ReflTransGen.single hstart).tail
    (.mint "s" rfl List.not_mem_nil)).trans (Node.runs _ _ _ _ _ _)
  have hjoin := (hmint.tail (.join req rfl)).trans (Node.runs _ _ _ _ _ _)
  exact ⟨_, hjoin, rfl, (invitations_single_use lenient (fun _ => 5) _ hjoin).1⟩

end Proxyma.Invites
