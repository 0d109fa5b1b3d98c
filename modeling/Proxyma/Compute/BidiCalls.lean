import Mathlib.Data.List.Basic

/-!
# Unary calls over a bidirectional service

In its unary mode a handler of `BuildHTTPBidiHandler` runs the streaming mode in a
goroutine, which sends the decoded frames to `sout`, closes it and then reports to
`errChan`; both channels have room for one element.  The caller takes one frame in a
first `select` and waits for the report in a second one.

Three frames are too many: the second one stays in `sout`, and the goroutine blocks on
the third for ever.  One frame is too few: the goroutine gets to its report before the
caller looks at `sout`, and the first `select` is free to take the report.  With two
frames there is no choice at any point, since the second one cannot be sent until the
first one has been taken.
-/

namespace Proxyma.Compute.BidiCall

variable {α : Type}

/-- The goroutine, with the frames it has not sent yet. -/
inductive Producer (α : Type)
  | decoding (frames : List α)
  | closed
  | reported

/-- The caller at one of its two selects, or with what it returned. -/
inductive Caller (α : Type)
  | first
  | second (response : Option α)
  | returned (result : Option α) (err : Option String)

end BidiCall

/-- A unary call under way. -/
structure BidiCall (α : Type) where
  producer : BidiCall.Producer α
  sout : Option α := none
  /-- The error that has been reported and not been read yet; `some none` is `nil`. -/
  errChan : Option (Option String) := none
  caller : BidiCall.Caller α := .first

namespace BidiCall

/-- The moves of a call: three of the goroutine, and the cases of the selects. -/
inductive Move
  | send
  | close
  | report
  | receive
  | receiveClosed
  | receiveErr

def noResponse : String := "bidi stream closed without returning response"

/-- What the caller does with a report: the first `select` has no response yet. -/
def Caller.settle : Caller α → Option String → Caller α
  | .first, none | .second none, none => .returned none noResponse
  | .first, some err | .second _, some err => .returned none err
  | .second (some response), none => .returned response none
  | .returned result err, _ => .returned result err

/-- A move, if it is possible; `ending` is what the streaming mode returns.  The
context of the call is never done. -/
def step (ending : Option String) (s : BidiCall α) : Move → Option (BidiCall α)
  | .send => match s.producer, s.sout with
    | .decoding (frame :: frames), none =>
      some { s with producer := .decoding frames, sout := some frame }
    | _, _ => none
  | .close => match s.producer with
    | .decoding [] => some { s with producer := .closed }
    | _ => none
  | .report => match s.producer, s.errChan with
    | .closed, none => some { s with producer := .reported, errChan := some ending }
    | _, _ => none
  | .receive => match s.caller, s.sout with
    | .first, some frame => some { s with sout := none, caller := .second frame }
    | _, _ => none
  | .receiveClosed => match s.caller, s.sout, s.producer with
    | .first, none, .closed | .first, none, .reported => some { s with caller := .second none }
    | _, _, _ => none
  | .receiveErr => match s.caller, s.errChan with
    | .returned _ _, _ | _, none => none
    | caller, some err => some { s with errChan := none, caller := caller.settle err }

/-- The call before the goroutine has sent anything. -/
def start (frames : List α) : BidiCall α := { producer := .decoding frames }

/-- However the moves are scheduled, the caller returns the frame and no error. -/
inductive Returns (ending : Option String) (frame : α) : BidiCall α → Prop
  | done {s} (h : s.caller = .returned frame none) : Returns ending frame s
  | move {s} (m : Move) (hm : (s.step ending m).isSome)
      (h : ∀ m s', s.step ending m = some s' → Returns ending frame s') : Returns ending frame s

variable {ending : Option String} {frame : α} {s s' : BidiCall α} {m : Move}

theorem step_returned {result : Option α} {err : Option String}
    (hcaller : s.caller = .returned result err) (h : s.step ending m = some s') :
    s'.caller = .returned result err := by
  cases m with
  | receive | receiveClosed | receiveErr => simp [step, hcaller] at h
  | send | close | report =>
    simp only [step] at h
    split at h <;> cases h
    exact hcaller

theorem Returns.step (hs : Returns ending frame s) (h : s.step ending m = some s') :
    Returns ending frame s' := by
  cases hs with
  | done hcaller => exact .done (step_returned hcaller h)
  | move _ _ hall => exact hall m s' h

theorem Returns.stuck (hs : Returns ending frame s) (h : ∀ m, s.step ending m = none) :
    s.caller = .returned frame none := by
  cases hs with
  | done hcaller => exact hcaller
  | move m hm _ => exact absurd (h m) (Option.isSome_iff_ne_none.1 hm)

/-- Where only one move is possible, it is enough to look at that one. -/
theorem Returns.of_only (m : Move) (h : s.step ending m = some s')
    (honly : ∀ m' s'', s.step ending m' = some s'' → m' = m) (hs' : Returns ending frame s') :
    Returns ending frame s := by
  refine .move m (Option.isSome_of_mem h) fun m' s'' h' => ?_
  obtain rfl := honly m' s'' h'
  exact Option.some.inj (h.symm.trans h') ▸ hs'

/-- Two frames leave no choice: each is sent and the first one taken in turn. -/
theorem returns_two (frame other : α) : Returns none frame (start [frame, other]) := by
  refine .of_only .send rfl (fun m _ h => by cases m <;> first | rfl | cases h) ?_
  refine .of_only .receive rfl (fun m _ h => by cases m <;> first | rfl | cases h) ?_
  refine .of_only .send rfl (fun m _ h => by cases m <;> first | rfl | cases h) ?_
  refine .of_only .close rfl (fun m _ h => by cases m <;> first | rfl | cases h) ?_
  refine .of_only .report rfl (fun m _ h => by cases m <;> first | rfl | cases h) ?_
  refine .of_only .receiveErr rfl (fun m _ h => by cases m <;> first | rfl | cases h) ?_
  exact .done rfl

/-- A single frame may be passed over: the report is taken in its place. -/
theorem not_returns_one (frame : α) : ¬ Returns none frame (start [frame]) := by
  intro h
  have hreported := ((h.step (m := .send) rfl).step (m := .close) rfl).step (m := .report) rfl
  have hcaller := (hreported.step (m := .receiveErr) rfl).stuck fun m => by cases m <;> rfl
  cases hcaller

theorem not_returns_many (frame second third : α) (rest : List α) :
    ¬ Returns none frame (start (frame :: second :: third :: rest)) := by
  intro h
  have hreceived := (h.step (m := .send) rfl).step (m := .receive) rfl
  have hcaller := (hreceived.step (m := .send) rfl).stuck fun m => by cases m <;> rfl
  cases hcaller

/-- The call returns the first frame under every schedule just when there are two. -/
theorem first_frame_returned_iff (frame : α) (rest : List α) :
    Returns none frame (start (frame :: rest)) ↔ (frame :: rest).length = 2 := by
  rcases rest with _ | ⟨second, rest⟩
  · simpa using not_returns_one frame
  cases rest with
  | nil => simpa using returns_two frame second
  | cons third rest => simpa using not_returns_many frame second third rest

/-- With one frame a schedule ends with an error; with three, one ends with a caller
that waits for ever. -/
theorem first_frame_lost :
    ([Move.send, .close, .report, .receiveErr].foldlM (step none) (start [0])).map caller =
        some (.returned none noResponse) ∧
      ∃ s, [Move.send, .receive, .send].foldlM (step none) (start [0, 1, 2]) = some s ∧
        s.caller = .second (some 0) ∧ ∀ m, s.step none m = none :=
  ⟨rfl, _, rfl, rfl, fun m => by cases m <;> rfl⟩

end Proxyma.Compute.BidiCall
