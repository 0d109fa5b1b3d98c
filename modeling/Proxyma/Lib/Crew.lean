import Proxyma.Lib.Program

/-!
# Numbered threads

Threads that take turns at one state.  A thread acts under its own number, so that the state
can tell whose an action was, and an action may have to wait until it can be performed.

A `Sharing` is a discipline for such threads: an invariant of the state, and for every thread
what the others leave alone (`keeps`).  `Sharing.Triple` is a Hoare triple for one thread
among others.  Its assertions have to be stable under what the others do, and each of its
actions has to keep the invariant and to leave alone what is kept for the others; `ret`,
`act` and `bind` are the rules.  `Sharing.Sound.step` puts the threads together.
-/

namespace Atomic

open Prog

universe u

variable {E : Type → Type u} {σ α β : Type}

/-- A state, and the numbered threads that work on it. -/
structure Crew (E : Type → Type u) (σ : Type) where
  state : σ
  threads : ℕ → Prog E Unit

namespace Crew

variable {c : Crew E σ} {h : ℕ → Handler E σ}

/-- Set a thread to work. -/
def assign (c : Crew E σ) (i : ℕ) (p : Prog E Unit) : Crew E σ :=
  ⟨c.state, Function.update c.threads i p⟩

/-- One thread performs its next action, if it may. -/
inductive Step (h : ℕ → Handler E σ) (may : ⦃β : Type⦄ → E β → σ → Prop) :
    Crew E σ → Crew E σ → Prop
  | act {β : Type} {e : E β} {next : β → Prog E Unit} {c : Crew E σ} (i : ℕ)
      (hi : c.threads i = .act e next) (he : may e c.state) :
      Step h may c ⟨((h i).exec e c.state).2,
        Function.update c.threads i (next ((h i).exec e c.state).1)⟩

/-- The crew after the next action of a thread. -/
def advance (h : ℕ → Handler E σ) (i : ℕ) (c : Crew E σ) : Crew E σ :=
  match c.threads i with
  | .ret _ => c
  | .act e next => ⟨((h i).exec e c.state).2,
      Function.update c.threads i (next ((h i).exec e c.state).1)⟩

/-- There is something to do, and it need not wait. -/
def CanStart (may : ⦃β : Type⦄ → E β → σ → Prop) (s : σ) : Prog E α → Prop
  | .ret _ => False
  | .act e _ => may e s

instance (may : ⦃β : Type⦄ → E β → σ → Prop)
    [∀ {β : Type} (e : E β) (s : σ), Decidable (may e s)] (s : σ) :
    ∀ p : Prog E α, Decidable (CanStart may s p)
  | .ret _ => .isFalse id
  | .act e _ => inferInstanceAs (Decidable (may e s))

theorem step_advance {may : ⦃β : Type⦄ → E β → σ → Prop} {i : ℕ}
    (hc : CanStart may c.state (c.threads i)) : Step h may c (c.advance h i) := by
  unfold advance
  cases hi : c.threads i with
  | ret a => simp [hi, CanStart] at hc
  | act e next =>
    rw [hi] at hc
    exact .act i hi hc

/-- Every turn that is given to a thread can be taken. -/
def CanFollow (h : ℕ → Handler E σ) (may : ⦃β : Type⦄ → E β → σ → Prop) :
    List ℕ → Crew E σ → Prop
  | [], _ => True
  | i :: turns, c =>
    CanStart may c.state (c.threads i) ∧ CanFollow h may turns (c.advance h i)

instance decidableCanFollow (h : ℕ → Handler E σ) (may : ⦃β : Type⦄ → E β → σ → Prop)
    [∀ {β : Type} (e : E β) (s : σ), Decidable (may e s)] :
    ∀ (turns : List ℕ) (c : Crew E σ), Decidable (CanFollow h may turns c)
  | [], _ => .isTrue trivial
  | i :: turns, c =>
    have := decidableCanFollow h may turns (c.advance h i)
    inferInstanceAs (Decidable (_ ∧ _))

/-- The threads act in a given order. -/
def follow (h : ℕ → Handler E σ) (turns : List ℕ) (c : Crew E σ) : Crew E σ :=
  turns.foldl (fun c i => c.advance h i) c

theorem follows {may : ⦃β : Type⦄ → E β → σ → Prop} {turns : List ℕ}
    (hc : CanFollow h may turns c) : Relation.ReflTransGen (Step h may) c (c.follow h turns) := by
  induction turns generalizing c with
  | nil => exact .refl
  | cons i turns ih => exact .head (step_advance hc.1) (ih hc.2)

/-- No action of a program has to wait, if nobody else does anything. -/
def Unhindered (h : Handler E σ) (may : ⦃β : Type⦄ → E β → σ → Prop) : Prog E α → σ → Prop
  | .ret _, _ => True
  | .act e next, s => may e s ∧ Unhindered h may (next (h.exec e s).1) (h.exec e s).2

instance decidableUnhindered (h : Handler E σ) (may : ⦃β : Type⦄ → E β → σ → Prop)
    [∀ {β : Type} (e : E β) (s : σ), Decidable (may e s)] :
    ∀ (p : Prog E α) (s : σ), Decidable (Unhindered h may p s)
  | .ret _, _ => .isTrue trivial
  | .act e next, s =>
    have := decidableUnhindered h may (next (h.exec e s).1) (h.exec e s).2
    inferInstanceAs (Decidable (_ ∧ _))

/-- A thread can run to its end before any other moves. -/
theorem runs {may : ⦃β : Type⦄ → E β → σ → Prop} {i : ℕ} {p : Prog E Unit}
    (hp : Unhindered (h i) may p c.state) :
    Relation.ReflTransGen (Step h may) (c.assign i p)
      (assign ⟨(p.run (h i) c.state).2, c.threads⟩ i (.ret ())) := by
  induction p generalizing c with
  | ret a => exact .refl
  | act e next ih =>
    refine .head (.act i (Function.update_self ..) hp.1) ?_
    have hnext := @ih _ ⟨((h i).exec e c.state).2, c.threads⟩ hp.2
    simpa [assign] using hnext

end Crew

/-- An invariant, and what is left alone by all threads but one. -/
structure Sharing (σ : Type) where
  inv : σ → Prop
  keeps : ℕ → σ → σ → Prop
  refl : ∀ i s, keeps i s s
  trans : ∀ i {a b d}, keeps i a b → keeps i b d → keeps i a d

namespace Sharing

variable (S : Sharing σ) (h : ℕ → Handler E σ) (may : ⦃β : Type⦄ → E β → σ → Prop) (i : ℕ)

/-- What thread `i` may assume of the others, and owes to them. -/
def contract : Contract E σ where
  assume := @may
  rely := fun s s' => (S.inv s → S.inv s') ∧ S.keeps i s s'
  guarantee := fun s s' => (S.inv s → S.inv s') ∧ ∀ j, j ≠ i → S.keeps j s s'

/-- An assertion that no other thread makes false. -/
def Stable (pre : σ → Prop) : Prop :=
  ∀ s s', S.inv s → S.inv s' → S.keeps i s s' → pre s → pre s'

/-- Thread `i` can run `p` from every state that satisfies `pre`, and ends in `post`. -/
def Triple (pre : σ → Prop) (p : Prog E α) (post : α → σ → Prop) : Prop :=
  ∀ s, S.inv s → pre s → Safe (h i) (S.contract may i) (fun a s' => S.inv s' ∧ post a s') p s

section Rules

variable {S h may i} {pre : σ → Prop} {p : Prog E α} {mid post : α → σ → Prop}
variable {pre' : σ → Prop}

theorem contract_refl (s : σ) : (S.contract may i).rely s s := ⟨id, S.refl i s⟩

theorem contract_trans {a b d : σ} (hab : (S.contract may i).rely a b)
    (hbd : (S.contract may i).rely b d) : (S.contract may i).rely a d :=
  ⟨hbd.1 ∘ hab.1, S.trans i hab.2 hbd.2⟩

theorem Triple.ret {a : α} (hstable : S.Stable i pre) (hpost : ∀ s, S.inv s → pre s → post a s) :
    S.Triple h may i pre (.ret a) post := by
  intro s hs hpre s' ⟨hinv, hkeeps⟩
  exact ⟨hinv hs, hpost s' (hinv hs) (hstable s s' hs (hinv hs) hkeeps hpre)⟩

/-- One action: what has to be shown is about the moment it is performed. -/
theorem Triple.act {e : E β} {next : β → Prog E α} (mid : β → σ → Prop)
    (hstable : S.Stable i pre)
    (hact : ∀ s, S.inv s → pre s → may e s →
      S.inv ((h i).exec e s).2 ∧ (∀ j, j ≠ i → S.keeps j s ((h i).exec e s).2) ∧
        mid ((h i).exec e s).1 ((h i).exec e s).2)
    (hnext : ∀ b, S.Triple h may i (mid b) (next b) post) :
    S.Triple h may i pre (.act e next) post := by
  intro s hs hpre s' ⟨hinv, hkeeps⟩ hmay
  obtain ⟨hinv', hkeeps', hmid⟩ := hact s' (hinv hs)
    (hstable s s' hs (hinv hs) hkeeps hpre) hmay
  exact ⟨⟨fun _ => hinv', hkeeps'⟩, hnext _ _ hinv' hmid⟩

theorem Triple.bind {g : α → Prog E β} {post : β → σ → Prop}
    (hp : S.Triple h may i pre p mid) (hg : ∀ a, S.Triple h may i (mid a) (g a) post) :
    S.Triple h may i pre (p >>= g) post :=
  fun s hs hpre => (hp s hs hpre).bind contract_refl fun a s' ha => hg a s' ha.1 ha.2

theorem Triple.weaken {post' : α → σ → Prop} (hp : S.Triple h may i pre p post)
    (hpre : ∀ s, S.inv s → pre' s → pre s) (hpost : ∀ a s, S.inv s → post a s → post' a s) :
    S.Triple h may i pre' p post' :=
  fun s hs hpre' => (hp s hs (hpre s hs hpre')).mono fun a s' ha => ⟨ha.1, hpost a s' ha.1 ha.2⟩

theorem Triple.given (hp : S.Triple h may i pre p post) (hpre : ∀ s, S.inv s → pre' s → pre s) :
    S.Triple h may i pre' p post :=
  hp.weaken hpre fun _ _ _ h => h

/-- An assertion that does not depend on the state can be taken out. -/
theorem Triple.of_pure {fact : Prop} (hp : fact → S.Triple h may i pre p post) :
    S.Triple h may i (fun s => fact ∧ pre s) p post :=
  fun s hs hpre => hp hpre.1 s hs hpre.2

theorem stable_true : S.Stable i fun _ => True := fun _ _ _ _ _ _ => trivial

theorem Stable.and {pre : σ → Prop} (hpre : S.Stable i pre) (hpre' : S.Stable i pre') :
    S.Stable i fun s => pre s ∧ pre' s :=
  fun s s' hs hs' hkeeps hboth =>
    ⟨hpre s s' hs hs' hkeeps hboth.1, hpre' s s' hs hs' hkeeps hboth.2⟩

end Rules

/-! ## Threads together -/

/-- The invariant holds and every thread keeps its contract. -/
structure Sound (c : Crew E σ) : Prop where
  inv : S.inv c.state
  safe : ∀ i, Safe (h i) (S.contract may i) (fun _ _ => True) (c.threads i) c.state

variable {S h may} {c c' : Crew E σ}

theorem Sound.step (hc : S.Sound h may c) (hstep : Crew.Step h may c c') : S.Sound h may c' := by
  cases hstep with
  | act i hi he =>
    have hsafe := hc.safe i
    rw [hi] at hsafe
    obtain ⟨⟨hinv, hkeeps⟩, hnext⟩ := hsafe c.state (contract_refl _) he
    refine ⟨hinv hc.inv, fun j => ?_⟩
    by_cases hj : j = i
    · subst hj
      simpa using hnext
    · simp only [Function.update_of_ne hj]
      exact (hc.safe j).stable contract_trans ⟨hinv, hkeeps j hj⟩

/-- A thread is set to work on something it can do here. -/
theorem Sound.assign (hc : S.Sound h may c) {p : Prog E Unit} {pre : σ → Prop} {i : ℕ}
    {post : Unit → σ → Prop} (hp : S.Triple h may i pre p post) (hpre : pre c.state) :
    S.Sound h may (c.assign i p) := by
  refine ⟨hc.inv, fun j => ?_⟩
  by_cases hj : j = i
  · subst hj
    simpa [Crew.assign] using (hp c.state hc.inv hpre).mono fun _ _ _ => trivial
  · simpa [Crew.assign, Function.update_of_ne hj] using hc.safe j

theorem Sound.interfere (hc : S.Sound h may c) {s : σ} (hinv : S.inv s)
    (hkeeps : ∀ i, S.keeps i c.state s) : S.Sound h may ⟨s, c.threads⟩ :=
  ⟨hinv, fun i => (hc.safe i).stable contract_trans ⟨fun _ => hinv, hkeeps i⟩⟩

theorem Sound.idle {s : σ} (hinv : S.inv s) : S.Sound h may ⟨s, fun _ => .ret ()⟩ :=
  ⟨hinv, fun _ _ _ => trivial⟩

end Sharing

end Atomic
