import SystemsLab.Framework.Transition
import Mathlib.Logic.Function.Basic

/-!
# Programs that make requests, and the protocols they follow

Between two requests to its environment a program only computes, so it is a tree that branches
over the replies. A protocol says which requests are in order in which phase, and what phase
a reply leads to. A program that follows a protocol does so whether it runs alone or
interleaved with others.
-/

namespace SystemsLab

variable {ω : Type} {ρ : ω → Type} {ε α β σ φ : Type}

inductive Program (ω : Type) (ρ : ω → Type) (ε α : Type)
  | pure (a : α)
  | throw (e : ε)
  | request (op : ω) (next : ρ op → Program ω ρ ε α)

namespace Program

def bind : Program ω ρ ε α → (α → Program ω ρ ε β) → Program ω ρ ε β
  | .pure a, f => f a
  | .throw e, _ => .throw e
  | .request op next, f => .request op fun r => (next r).bind f

instance : Monad (Program ω ρ ε) where
  pure := .pure
  bind := bind

/-- A single request. -/
def call (op : ω) : Program ω ρ ε (ρ op) :=
  .request op .pure

/-- Runs a program alone, against an environment with a state. -/
def eval (serve : (op : ω) → σ → ρ op × σ) : Program ω ρ ε α → σ → Except ε α × σ
  | .pure a, s => (.ok a,s)
  | .throw e, s => (.error e,s)
  | .request op next, s =>
    let r := serve op s
    (next r.1).eval serve r.2

@[simp] theorem pure_bind (a : α) (f : α → Program ω ρ ε β) :
    (pure a : Program ω ρ ε α) >>= f = f a := rfl

@[simp] theorem request_bind (op : ω) (next : ρ op → Program ω ρ ε α)
    (f : α → Program ω ρ ε β) :
    Program.request op next >>= f = .request op fun r => next r >>= f := rfl

@[simp] theorem call_bind (op : ω) (f : ρ op → Program ω ρ ε β) :
    Program.call op >>= f = .request op f := rfl

end Program

/-- `allows ph op` is `none` if `op` is out of order in phase `ph`. Otherwise it maps each
reply that the environment may give to the next phase. -/
structure Protocol (ω : Type) (ρ : ω → Type) (φ : Type) where
  allows : φ → (op : ω) → Option (ρ op → Option φ)

/-- A program that follows a protocol from a phase, never throws, and returns in a phase
that `done` relates to its result. -/
inductive Protocol.Follows (P : Protocol ω ρ φ) (done : φ → α → Prop) :
    φ → Program ω ρ ε α → Prop
  | pure {ph : φ} {a : α} : done ph a → Follows P done ph (.pure a)
  | request {ph : φ} {op : ω} {next : ρ op → Program ω ρ ε α} (g : ρ op → Option φ) :
      P.allows ph op = some g → (∀ r ph', g r = some ph' → Follows P done ph' (next r)) →
      Follows P done ph (.request op next)

namespace Protocol

variable {P : Protocol ω ρ φ}

/-- The rule of sequential composition. -/
theorem Follows.bind {mid : φ → α → Prop} {done : φ → β → Prop} {ph : φ}
    {p : Program ω ρ ε α} {f : α → Program ω ρ ε β} (h : P.Follows mid ph p)
    (hf : ∀ ph a, mid ph a → P.Follows done ph (f a)) : P.Follows done ph (p >>= f) := by
  induction h with
  | pure ha => exact hf _ _ ha
  | request g hg _ ih => exact .request g hg ih

theorem Follows.of_pure {done : φ → α → Prop} {ph : φ} {a : α}
    (h : P.Follows done ph (.pure a : Program ω ρ ε α)) : done ph a := by
  cases h with
  | pure ha => exact ha

/-- The environment keeps an invariant of phase and state through every request in order. -/
def Keeps (P : Protocol ω ρ φ) (serve : (op : ω) → σ → ρ op × σ) (Inv : φ → σ → Prop) : Prop :=
  ∀ ph op g s, Inv ph s → P.allows ph op = some g →
    ∃ ph', g (serve op s).1 = some ph' ∧ Inv ph' (serve op s).2

theorem Follows.eval {serve : (op : ω) → σ → ρ op × σ} {Inv : φ → σ → Prop}
    (hkeeps : P.Keeps serve Inv) {done : φ → α → Prop} {ph : φ} {p : Program ω ρ ε α}
    (h : P.Follows done ph p) {s : σ} (hs : Inv ph s) :
    ∃ ph' a, (p.eval serve s).1 = .ok a ∧ done ph' a ∧ Inv ph' (p.eval serve s).2 := by
  induction h generalizing s with
  | @pure ph a ha => exact ⟨ph,a,rfl,ha,hs⟩
  | @request ph op next g hg _ ih =>
    obtain ⟨ph',hph',hs'⟩ := hkeeps ph op g s hs hg
    exact ih _ ph' hph' hs'

end Protocol

variable {ι ν π : Type}

/-- Programs that share a state. -/
structure Pool (ι : Type) (ω : Type) (ρ : ω → Type) (ε α σ : Type) where
  shared : σ
  thread : ι → Option (Program ω ρ ε α) := fun _ => none

/-- A program is started, has its pending request served, or stops for good. `choice` is what
the environment decides about the request. -/
inductive PoolEvent (ι ν π ε : Type)
  | start (i : ι) (input : π)
  | serve (i : ι) (choice : ν)
  | crash (i : ι) (e : ε)

variable [DecidableEq ι]

def poolStep (spawn : π → Program ω ρ ε α) (serve : ι → ν → (op : ω) → σ → ρ op × σ)
    (w : Pool ι ω ρ ε α σ) : PoolEvent ι ν π ε → Option (Pool ι ω ρ ε α σ)
  | .start i input =>
    match w.thread i with
    | none => some { w with thread := Function.update w.thread i (some (spawn input)) }
    | some _ => none
  | .serve i choice =>
    match w.thread i with
    | some (.request op next) =>
      let r := serve i choice op w.shared
      some ⟨r.2,Function.update w.thread i (some (next r.1))⟩
    | _ => none
  | .crash i e =>
    match w.thread i with
    | some (.request _ _) =>
      some { w with thread := Function.update w.thread i (some (.throw e)) }
    | _ => none

namespace Pool

variable {P : Protocol ω ρ φ} {done : φ → α → Prop} {spawn : π → Program ω ρ ε α}
  {serve : ι → ν → (op : ω) → σ → ρ op × σ}

/-- Each running thread follows the protocol from its phase, and the phases of all threads
together fit the shared state. -/
structure Conforms (P : Protocol ω ρ φ) (done : φ → α → Prop) (Inv : (ι → Option φ) → σ → Prop)
    (w : Pool ι ω ρ ε α σ) (phase : ι → Option φ) : Prop where
  follows : ∀ i p, w.thread i = some p →
    (∃ e, p = .throw e) ∨ ∃ ph, phase i = some ph ∧ P.Follows done ph p
  absent : ∀ i, w.thread i = none → phase i = none
  inv : Inv phase w.shared

theorem Conforms.set {Inv : (ι → Option φ) → σ → Prop} {w w' : Pool ι ω ρ ε α σ}
    {phase phase' : ι → Option φ} (h : Conforms P done Inv w phase) {i : ι}
    {p : Program ω ρ ε α} (hthread : w'.thread = Function.update w.thread i (some p))
    (hphase : ∀ j, j ≠ i → phase' j = phase j)
    (hp : (∃ e, p = .throw e) ∨ ∃ ph, phase' i = some ph ∧ P.Follows done ph p)
    (hinv : Inv phase' w'.shared) : Conforms P done Inv w' phase' := by
  refine ⟨?_,?_,hinv⟩
  · intro j q hq
    rw [hthread] at hq
    by_cases hj : j = i
    · subst hj
      rw [Function.update_self] at hq
      cases hq
      exact hp
    · rw [Function.update_of_ne hj] at hq
      rw [hphase j hj]
      exact h.follows j q hq
  · intro j hj'
    rw [hthread] at hj'
    by_cases hj : j = i
    · subst hj
      rw [Function.update_self] at hj'
      cases hj'
    · rw [Function.update_of_ne hj] at hj'
      rw [hphase j hj]
      exact h.absent j hj'

/-- The interleaving rule: it is enough to look at one request of one thread. -/
theorem Conforms.step {Inv : (ι → Option φ) → σ → Prop} (ok : Pool ι ω ρ ε α σ → ι → ν → Prop)
    (hspawn : ∀ input, ∃ ph, P.Follows done ph (spawn input) ∧
      ∀ phase s (i : ι), Inv phase s → phase i = none →
        Inv (Function.update phase i (some ph)) s)
    (hserve : ∀ w phase i choice ph op next g, Inv phase w.shared → phase i = some ph →
      w.thread i = some (.request op next) → ok w i choice → P.allows ph op = some g →
      ∃ ph', g (serve i choice op w.shared).1 = some ph' ∧
        Inv (Function.update phase i (some ph')) (serve i choice op w.shared).2)
    {w w' : Pool ι ω ρ ε α σ} {phase : ι → Option φ} (h : Conforms P done Inv w phase)
    {e : PoolEvent ι ν π ε} (hok : ∀ i choice, e = .serve i choice → ok w i choice)
    (hstep : poolStep spawn serve w e = some w') : ∃ phase', Conforms P done Inv w' phase' := by
  have hother : ∀ i ph j, j ≠ i → Function.update phase i (some ph) j = phase j :=
    fun i ph j hj => Function.update_of_ne hj _ _
  cases e with
  | start i input =>
    simp only [poolStep] at hstep
    split at hstep
    · rename_i hi
      cases hstep
      obtain ⟨ph,hfollows,hinv⟩ := hspawn input
      have hself := Function.update_self i (some ph) phase
      exact ⟨_,h.set rfl (hother i ph) (.inr ⟨ph,hself,hfollows⟩)
        (hinv _ _ _ h.inv (h.absent i hi))⟩
    · cases hstep
  | serve i choice =>
    simp only [poolStep] at hstep
    split at hstep
    · rename_i op next hi
      cases hstep
      rcases h.follows i _ hi with ⟨e,he⟩ | ⟨ph,hph,hfollows⟩
      · cases he
      · cases hfollows with
        | request g hg hnext =>
          obtain ⟨ph',hph',hinv⟩ :=
            hserve w phase i choice ph op next g h.inv hph hi (hok i choice rfl) hg
          have hself := Function.update_self i (some ph') phase
          exact ⟨_,h.set rfl (hother i ph') (.inr ⟨ph',hself,hnext _ _ hph'⟩) hinv⟩
    · cases hstep
  | crash i e =>
    simp only [poolStep] at hstep
    split at hstep
    · cases hstep
      exact ⟨phase,h.set rfl (fun _ _ => rfl) (.inl ⟨e,rfl⟩) h.inv⟩
    · cases hstep

end Pool

end SystemsLab
