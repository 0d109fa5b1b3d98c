import Proxyma.Compute.StatusLaw
import Proxyma.Lib.Crew

/-!
# Callbacks that are turned away

A run of an engine is a list of moves: a thread performs its next action, a call is started,
or a callback arrives over the network.  Every move brings along what the outside answers to
it, so that a run from which moves are erased gives the remaining ones the same answers.

A callback of a node that is not a producer of its task reads the tables and changes nothing.
`Alike` relates two crews that differ in the number of answers given so far and in nothing
else; every move takes related crews to related ones, so the run and what is left of it go on
side by side.
-/

namespace Proxyma.Compute

open Keyed Atomic

/-- The state without the number of answers that were given. -/
def Engine.observed (s : Engine) : Engine := { s with answers := 0 }

/-- The actions, with the answers of the outside counted anew for each. -/
def stepwise (c : Node) (w : World) : Handler Action Engine := ⟨fun e s => exec c w e s.observed⟩

/-- The status code of `HandleServiceCallback` for an error of `AcceptTaskCallback`. -/
def callbackStatus : Option GoError → ℕ
  | none => 200
  | some err =>
    if err.is TaskTables.errTaskProducer then 403
    else if err.is TaskTables.errTaskNotFound then 404
    else if err.is TaskTables.errTaskTerminal then 409
    else 400

/-- `HandleServiceCallback`, for an authenticated sender. -/
def handleServiceCallback (c : Node) (w : World) (sender : String) (payload : ServiceTaskResponse)
    (s : Engine) : ℕ × Engine :=
  if payload.producerNodeID ≠ "" ∧ payload.producerNodeID ≠ sender then (403, s)
  else
    let (err, s) := (stepwise c w).exec (.acceptTaskCallback sender payload) s
    (callbackStatus err, s)

/-- What happens next. -/
inductive EngineMove
  | act (i : ℕ) (w : World)
  | start (i : ℕ) (call : Prog Action Unit)
  | callback (sender : String) (payload : ServiceTaskResponse) (w : World)

/-- An engine with the calls that are under way. -/
abbrev Site := Crew Action Engine

/-- A callback whose sender is neither the expected producer of the task nor one of its
delegated producers. -/
def EngineMove.Unauthorized (s : Engine) : EngineMove → Prop
  | .callback sender payload _ =>
    TaskTables.isAuthorizedCallbackProducer sender (s.tables.metadataOf payload.taskID) = false
  | _ => False

instance (s : Engine) : DecidablePred (EngineMove.Unauthorized s)
  | .callback _ _ _ => inferInstanceAs (Decidable (_ = false))
  | .act _ _ | .start _ _ => .isFalse id

/-- The site after a move.  A call is started on a thread that is free. -/
def Site.move (c : Node) (site : Site) : EngineMove → Site
  | .act i w => site.advance (fun _ => stepwise c w) i
  | .start i call =>
    match site.threads i with
    | .ret _ => site.assign i call
    | .act _ _ => site
  | .callback sender payload w =>
    ⟨(handleServiceCallback c w sender payload site.state).2, site.threads⟩

/-- What can be seen of a site: all tables, the queue, the journal, and the calls. -/
def Site.view (site : Site) : Site := ⟨site.state.observed, site.threads⟩

/-- The views after the moves of a run. -/
def views (c : Node) : Site → List EngineMove → List Site
  | _, [] => []
  | site, m :: rest => (site.move c m).view :: views c (site.move c m) rest

/-- The run without the unauthorized callbacks. -/
def eraseCallbacks (c : Node) : Site → List EngineMove → List EngineMove
  | _, [] => []
  | site, m :: rest =>
    if m.Unauthorized site.state then eraseCallbacks c (site.move c m) rest
    else m :: eraseCallbacks c (site.move c m) rest

/-- The views after those moves of a run that are not erased. -/
def remainingViews (c : Node) : Site → List EngineMove → List Site
  | _, [] => []
  | site, m :: rest =>
    if m.Unauthorized site.state then remainingViews c (site.move c m) rest
    else (site.move c m).view :: remainingViews c (site.move c m) rest

/-! ## Two runs side by side -/

/-- The same site, up to the number of answers. -/
def Alike (site site' : Site) : Prop := site.view = site'.view

variable {site site' : Site} {s s' : Engine}

theorem Alike.observed (h : Alike site site') :
    site.state.observed = site'.state.observed := (Crew.mk.inj h).1

theorem Alike.threads (h : Alike site site') : site.threads = site'.threads :=
  (Crew.mk.inj h).2

theorem alike_of_eq {threads : ℕ → Prog Action Unit} (h : s.observed = s'.observed) :
    Alike ⟨s, threads⟩ ⟨s', threads⟩ := by
  unfold Alike Site.view
  rw [h]

theorem stepwise_congr (c : Node) (w : World) {β : Type} (e : Action β)
    (h : s.observed = s'.observed) : (stepwise c w).exec e s = (stepwise c w).exec e s' := by
  unfold stepwise
  dsimp only
  rw [h]

theorem handleServiceCallback_congr (c : Node) (w : World) (sender : String)
    (payload : ServiceTaskResponse) (h : s.observed = s'.observed) :
    (handleServiceCallback c w sender payload s).2.observed =
      (handleServiceCallback c w sender payload s').2.observed := by
  unfold handleServiceCallback
  split_ifs
  · exact h
  · rw [stepwise_congr c w _ h]

/-- A move takes sites that are alike to sites that are alike. -/
theorem Alike.move (h : Alike site site') (c : Node) (m : EngineMove) :
    Alike (site.move c m) (site'.move c m) := by
  obtain ⟨s, threads⟩ := site
  obtain ⟨s', threads'⟩ := site'
  have hobserved : s.observed = s'.observed := h.observed
  obtain rfl : threads = threads' := h.threads
  cases m with
  | act i w =>
    unfold Site.move Crew.advance
    dsimp only
    cases threads i with
    | ret value => exact h
    | act e next =>
      dsimp only
      rw [stepwise_congr c w e hobserved]
      rfl
  | start i call =>
    unfold Site.move
    dsimp only
    cases threads i with
    | ret value => exact alike_of_eq hobserved
    | act e next => exact h
  | callback sender payload w =>
    exact alike_of_eq (handleServiceCallback_congr c w sender payload hobserved)

theorem alike_of_unauthorized (c : Node) {m : EngineMove} (h : m.Unauthorized site.state) :
    Alike (site.move c m) site := by
  cases m with
  | act _ _ | start _ _ => exact h.elim
  | callback sender payload w =>
    refine alike_of_eq ?_
    unfold handleServiceCallback
    split_ifs
    · rfl
    obtain ⟨htables, hstored⟩ :=
      acceptTaskCallback_unauthorized h (w.clock site.state.observed.answers)
    change (Engine.finish c w site.state.observed _ sender).observed = _
    unfold Engine.finish
    rw [show site.state.observed.tables = site.state.tables from rfl, hstored, htables]
    rfl

/-- Erasing the unauthorized callbacks of a run changes nothing at the steps that remain: the
statuses with their outputs, the metadata of producers, the retired and the accepted tasks, the
journal and everything else are the same after each of them. -/
theorem unauthorized_callbacks_erased (c : Node) (site : Site) (moves : List EngineMove) :
    views c site (eraseCallbacks c site moves) = remainingViews c site moves := by
  have hside : ∀ (site site' : Site), Alike site site' →
      views c site' (eraseCallbacks c site moves) = remainingViews c site moves := by
    induction moves with
    | nil => exact fun _ _ _ => rfl
    | cons m rest ih =>
      intro site site' halike
      unfold eraseCallbacks remainingViews
      split_ifs with hunauthorized
      · exact ih _ _ ((alike_of_unauthorized c hunauthorized).trans halike)
      · have hmoved := halike.move c m
        unfold views
        rw [ih _ _ hmoved]
        exact congrArg (· :: remainingViews c (site.move c m) rest) hmoved.symm
  exact hside site site rfl

end Proxyma.Compute
