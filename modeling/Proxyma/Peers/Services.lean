import Proxyma.Outbox.Catalog
import Proxyma.Storage.Database

/-!
# What a node caches of a peer's services

A node tells its peers about the services it offers, one notification for each
that is added or removed.  The receiver caches them, but before it looks at the
action it asks whether it is subscribed to the service: a notification that
matches none of its patterns is answered with 200 and ignored, and that goes for
a removal as well.  Without any pattern every service counts as subscribed.

The two nodes are one state here: the services offered, the notifications on
their way in order, the receiver's patterns and its cache.  `Follows` compares
the cache with the services as of the notifications handled so far; the rest of
the notifications leads from these to the services offered now.
-/

namespace Proxyma.Peers

open Keyed Outbox

variable {view : Bucket String ServiceSchema} {cached : Bucket String ServiceSchema}

/-! ## Patterns -/

/-- `strings.CutSuffix`. -/
def cutSuffix (s ending : String) : Option String :=
  if ending.toList.isSuffixOf s.toList then
    some (String.ofList (s.toList.take (s.toList.length - ending.toList.length)))
  else none

def matchServicePattern (pattern serviceName : String) : Bool :=
  let pattern := Text.trimSpace pattern
  if pattern = "" then false
  else if pattern = "*" ∨ pattern = serviceName then true
  else
    match cutSuffix pattern ".*" with
    | some start => serviceName = start ∨ Text.hasPrefix serviceName (start ++ ".")
    | none => (cutSuffix pattern "*").any fun start => Text.hasPrefix serviceName start

/-- `IsServiceSubscribedE` on the bucket of patterns. -/
def isServiceSubscribed (subscriptions : Bucket String Unit) (name : String) : Bool :=
  subscriptions.keys.isEmpty || subscriptions.keys.any fun pattern => matchServicePattern pattern name

/-- `SetServiceSubscription`, with the error of its transaction if that fails. -/
def setServiceSubscription (fault : Option GoError) (pattern : String) (subscribed : Bool)
    (subscriptions : Bucket String Unit) : Except GoError (Bucket String Unit) :=
  if pattern = "" then .error (.errorf "empty service subscription pattern" [])
  else
    match fault with
    | some err => .error err
    | none =>
      if subscribed then Storage.boltPut subscriptions pattern ()
      else .ok (subscriptions.erase pattern)

/-! ## Notifications -/

/-- `ServiceNotification`. -/
structure ServiceNotification where
  action : CatalogAction
  schema : ServiceSchema

def updatePeerService (services : Bucket String ServiceSchema) (n : ServiceNotification) :
    Bucket String ServiceSchema :=
  match n.action with
  | .add => services.put n.schema.name n.schema
  | .remove => services.erase n.schema.name

/-- `HandleServiceNotify`: the status of the answer, and the cache. -/
def handleServiceNotify (fault : Option GoError) (subscriptions : Bucket String Unit)
    (services : Bucket String ServiceSchema) (n : ServiceNotification) :
    ℕ × Bucket String ServiceSchema :=
  match fault with
  | some _ => (500, services)
  | none =>
    if !isServiceSubscribed subscriptions n.schema.name then (200, services)
    else (200, updatePeerService services n)

/-- What there is to say about a service. -/
def currentNotification (services : Bucket String ServiceSchema) (name : String) :
    ServiceNotification :=
  match services.get name with
  | some schema => ⟨.add, schema⟩
  | none => ⟨.remove, ⟨name, ""⟩⟩

/-- A node's services, its notifications that are not acknowledged yet, and the
patterns and the cache of the peer. -/
structure ServiceView where
  offered : Bucket String ServiceSchema
  queue : List ServiceNotification
  subscriptions : Bucket String Unit
  cached : Bucket String ServiceSchema

/-- Two nodes that have not met. -/
def ServiceView.new : ServiceView := ⟨.empty, [], .empty, .empty⟩

/-- What can happen.  `announce` says again what holds of a service, as a failed
mutation or a join does; a delivery meets a failing read of the patterns, or its
answer is lost, as the two arguments say. -/
inductive ServiceMove
  | add (schema : ServiceSchema)
  | remove (name : String)
  | announce (name : String)
  | subscribe (fault : Option GoError) (pattern : String) (subscribed : Bool)
  | deliver (fault : Option GoError) (answered : Bool)

def ServiceView.move (s : ServiceView) : ServiceMove → ServiceView
  | .add schema =>
    { s with
      offered := s.offered.put schema.name schema
      queue := s.queue ++ [⟨.add, schema⟩] }
  | .remove name =>
    if s.offered.has name then
      { s with
        offered := s.offered.erase name
        queue := s.queue ++ [⟨.remove, (s.offered.get name).getD ⟨name, ""⟩⟩] }
    else s
  | .announce name => { s with queue := s.queue ++ [currentNotification s.offered name] }
  | .subscribe fault pattern subscribed =>
    match setServiceSubscription fault pattern subscribed s.subscriptions with
    | .error _ => s
    | .ok subscriptions => { s with subscriptions := subscriptions }
  | .deliver fault answered =>
    match s.queue with
    | [] => s
    | n :: rest =>
      let (status, cached) := handleServiceNotify fault s.subscriptions s.cached n
      { s with
        cached := cached
        queue := if status = 200 ∧ answered = true then rest else s.queue }

/-- The state after a sequence of moves. -/
def ServiceView.run (moves : List ServiceMove) : ServiceView :=
  moves.foldl ServiceView.move .new

/-- A delivered removal of a cached service matches the patterns of the moment. -/
def ServiceView.Heeds (s : ServiceView) : ServiceMove → Prop
  | .deliver none _ => ∀ schema rest, s.queue = ⟨.remove, schema⟩ :: rest →
      s.cached.has schema.name = true → isServiceSubscribed s.subscriptions schema.name = true
  | _ => True

/-! ## Following the notifications -/

/-- The queue leads from the services of some earlier moment, among which all
cached ones are, to those offered now. -/
def ServiceView.Follows (s : ServiceView) (view : Bucket String ServiceSchema) : Prop :=
  s.offered = s.queue.foldl updatePeerService view ∧
    ∀ name, s.cached.has name = true → view.has name = true

/-- Every service is offered under its own name. -/
def ServiceView.Named (s : ServiceView) : Prop :=
  ∀ name schema, s.offered.get name = some schema → schema.name = name

theorem updatePeerService_twice (services : Bucket String ServiceSchema) (n : ServiceNotification) :
    updatePeerService (updatePeerService services n) n = updatePeerService services n := by
  refine Bucket.ext_get fun k => ?_
  unfold updatePeerService
  cases n.action with
  | add =>
    simp only [Bucket.get_put]
    split_ifs <;> rfl
  | remove =>
    simp only [Bucket.get_erase]
    split_ifs <;> rfl

theorem updatePeerService_current {services : Bucket String ServiceSchema} {name : String}
    (hnamed : ∀ schema, services.get name = some schema → schema.name = name) :
    updatePeerService services (currentNotification services name) = services := by
  refine Bucket.ext_get fun k => ?_
  unfold updatePeerService currentNotification
  cases hget : services.get name with
  | none =>
    simp only [Bucket.get_erase]
    split_ifs with hk
    · rw [hk, hget]
    · rfl
  | some schema =>
    simp only [Bucket.get_put, hnamed schema hget]
    split_ifs with hk
    · rw [hk, hget]
    · rfl

variable {s : ServiceView} {n : ServiceNotification}

theorem ServiceView.named_move (h : s.Named) (move : ServiceMove) : (s.move move).Named := by
  cases move with
  | add schema =>
    intro name schema' hget
    simp only [ServiceView.move, Bucket.get_put] at hget
    split_ifs at hget with hname
    · rw [← Option.some.inj hget, hname]
    · exact h name schema' hget
  | remove name =>
    simp only [ServiceView.move]
    split_ifs
    · intro name' schema hget
      simp only [Bucket.get_erase] at hget
      split_ifs at hget
      exact h name' schema hget
    · exact h
  | announce name => exact h
  | subscribe fault pattern subscribed =>
    simp only [ServiceView.move]
    cases setServiceSubscription fault pattern subscribed s.subscriptions <;> exact h
  | deliver fault answered =>
    simp only [ServiceView.move]
    cases hqueue : s.queue with
    | nil | cons _ _ => exact h

/-- A mutation with its notification, or a notification alone, keeps the
relation. -/
theorem ServiceView.Follows.say (h : s.Follows view) {offered : Bucket String ServiceSchema}
    (hn : offered = updatePeerService s.offered n) :
    ServiceView.Follows { s with offered := offered, queue := s.queue ++ [n] } view := by
  refine ⟨?_, h.2⟩
  rw [List.foldl_append, ← h.1, hn]
  rfl

/-- A handled notification keeps the cache among the services. -/
theorem has_updatePeerService (h : ∀ name, cached.has name = true → view.has name = true)
    (n : ServiceNotification) (name : String) (hname : (updatePeerService cached n).has name = true) :
    (updatePeerService view n).has name = true := by
  rw [Bucket.has_eq_true] at hname ⊢
  unfold updatePeerService at hname ⊢
  cases haction : n.action with
  | add =>
    simp only [haction, Bucket.get_put] at hname ⊢
    split_ifs at hname ⊢
    · exact ⟨_, rfl⟩
    · exact Bucket.has_eq_true.1 (h name (Bucket.has_eq_true.2 hname))
  | remove =>
    simp only [haction, Bucket.get_erase] at hname ⊢
    split_ifs at hname ⊢
    · simp at hname
    · exact Bucket.has_eq_true.1 (h name (Bucket.has_eq_true.2 hname))

/-- So does one that is ignored, unless it removes a cached service. -/
theorem has_ignored (h : ∀ name, cached.has name = true → view.has name = true)
    (hn : n.action = .remove → cached.has n.schema.name = false) (name : String)
    (hname : cached.has name = true) : (updatePeerService view n).has name = true := by
  have hview := h name hname
  rw [Bucket.has_eq_true] at hview ⊢
  unfold updatePeerService
  cases haction : n.action with
  | add =>
    simp only [Bucket.get_put]
    split_ifs
    · exact ⟨_, rfl⟩
    · exact hview
  | remove =>
    simp only [Bucket.get_erase]
    split_ifs with heq
    · simp [heq, hn haction] at hname
    · exact hview

theorem ServiceView.Follows.deliver (h : s.Follows view) (fault : Option GoError) (answered : Bool)
    (hheeds : s.Heeds (.deliver fault answered)) :
    ∃ view', (s.move (.deliver fault answered)).Follows view' := by
  cases hqueue : s.queue with
  | nil =>
    refine ⟨view, ?_⟩
    simp only [ServiceView.move, hqueue]
    exact h
  | cons n rest =>
    simp only [ServiceView.move, hqueue, handleServiceNotify]
    cases fault with
    | some err =>
      refine ⟨view, ?_, h.2⟩
      have hoffered := h.1
      rw [hqueue] at hoffered
      simpa using hoffered
    | none =>
      -- The notification counts as heard, whether it is answered or not.
      refine ⟨updatePeerService view n, ?_, ?_⟩
      · have hoffered : s.offered = (n :: rest).foldl updatePeerService
            (updatePeerService view n) := by
          rw [h.1, hqueue, List.foldl_cons, List.foldl_cons, updatePeerService_twice]
        have hrest : s.offered = rest.foldl updatePeerService (updatePeerService view n) := by
          rw [h.1, hqueue, List.foldl_cons]
        split_ifs
        · exact hrest
        · exact hoffered
        · exact hrest
        · exact hoffered
      · dsimp only
        split_ifs with hsubscribed
        · refine has_ignored h.2 ?_
          intro hremove
          by_contra hcached
          rw [Bool.not_eq_false] at hcached
          have hqueue' : s.queue = ⟨.remove, n.schema⟩ :: rest := by
            rw [hqueue, ← hremove]
          simp [hheeds n.schema rest hqueue' hcached] at hsubscribed
        · exact has_updatePeerService h.2 n

theorem ServiceView.Follows.move (h : s.Follows view) (hnamed : s.Named) (move : ServiceMove)
    (hheeds : s.Heeds move) : ∃ view', (s.move move).Follows view' := by
  cases move with
  | add schema => exact ⟨view, h.say rfl⟩
  | remove name =>
    simp only [ServiceView.move]
    split_ifs with hoffered
    · refine ⟨view, h.say ?_⟩
      obtain ⟨schema, hget⟩ := Bucket.has_eq_true.1 hoffered
      rw [hget, updatePeerService, Option.getD_some, hnamed name schema hget]
    · exact ⟨view, h⟩
  | announce name =>
    exact ⟨view, h.say (updatePeerService_current fun schema => hnamed name schema).symm⟩
  | subscribe fault pattern subscribed =>
    simp only [ServiceView.move]
    cases setServiceSubscription fault pattern subscribed s.subscriptions <;> exact ⟨view, h⟩
  | deliver fault answered => exact h.deliver fault answered hheeds

/-! ## Runs -/

/-- In a run whose deliveries of removals match the patterns of the moment when
they concern a cached service, a node caches only services that the peer offers,
whenever all notifications have been handled. -/
theorem cached_services_offered (moves : List ServiceMove)
    (hheeds : ∀ earlier move later, moves = earlier ++ move :: later →
      (ServiceView.run earlier).Heeds move)
    (hdelivered : (ServiceView.run moves).queue = []) (name : String)
    (hcached : (ServiceView.run moves).cached.has name = true) :
    (ServiceView.run moves).offered.has name = true := by
  have hfollows : ∀ moves : List ServiceMove,
      (∀ earlier move later, moves = earlier ++ move :: later →
        (ServiceView.run earlier).Heeds move) →
      (ServiceView.run moves).Named ∧ ∃ view, (ServiceView.run moves).Follows view := by
    intro moves
    induction moves using List.reverseRecOn with
    | nil =>
      intro _
      refine ⟨?_, .empty, rfl, ?_⟩
      · intro name schema hget
        cases hget
      · intro name hname
        cases hname
    | append_singleton moves move ih =>
      intro hheeds
      obtain ⟨hnamed, view, hview⟩ := ih fun earlier move' later heq =>
        hheeds earlier move' (later ++ [move]) (by rw [heq]; simp)
      rw [ServiceView.run, List.foldl_append]
      exact ⟨ServiceView.named_move hnamed move, hview.move hnamed move (hheeds moves move [] rfl)⟩
  obtain ⟨-, view, hoffered, hsubset⟩ := hfollows moves hheeds
  rw [hdelivered, List.foldl_nil] at hoffered
  rw [hoffered]
  exact hsubset name hcached

/-- A subscribed service is added and arrives. -/
theorem cached_services_offered_added :
    (ServiceView.run [.subscribe none "vision.*" true, .add ⟨"vision.ocr", ""⟩,
      .deliver none true]).cached.has "vision.ocr" = true ∧
    (ServiceView.run [.subscribe none "vision.*" true, .add ⟨"vision.ocr", ""⟩,
      .deliver none true]).offered.has "vision.ocr" = true := by
  refine ⟨by decide +kernel, cached_services_offered _ ?_ rfl _ (by decide +kernel)⟩
  intro earlier move later heq
  rcases earlier with _ | ⟨_, _ | ⟨_, _ | ⟨_, earlier⟩⟩⟩
  · obtain rfl : _ = move := (List.cons.inj heq).1
    trivial
  · obtain rfl : _ = move := (List.cons.inj (List.cons.inj heq).2).1
    trivial
  · simp only [List.cons_append, List.nil_append, List.cons.injEq] at heq
    obtain ⟨rfl, rfl, rfl, -⟩ := heq
    intro schema rest hqueue
    cases hqueue
  · simp at heq

/-- A service is added and cached; then the peer subscribes to something else,
and the removal of the service is delivered and ignored. -/
theorem ignored_removal_stays_cached :
    let s := ServiceView.run [.add ⟨"ocr", ""⟩, .deliver none true,
      .subscribe none "vision.*" true, .remove "ocr", .deliver none true]
    s.queue.length = 0 ∧ s.cached.has "ocr" = true ∧ s.offered.has "ocr" = false := by
  decide +kernel

end Proxyma.Peers
