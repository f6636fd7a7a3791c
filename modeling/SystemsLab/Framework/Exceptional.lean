import Mathlib.Tactic.Basic

/-!
# Programs with a state that throw

A triple says where a program may start, where it returns, and where it throws. What has been done
to the state before an exception remains done.
-/

namespace SystemsLab

variable {σ ε α β : Type}

/-- From a state that meets `P`, the program returns so that `Q` is met or throws so that `E` is
met. -/
def Triple (P : σ → Prop) (x : EStateM ε σ α) (Q : α → σ → Prop) (E : ε → σ → Prop) : Prop :=
  ∀ s, P s → match x s with
    | .ok a t => Q a t
    | .error e t => E e t

/-- The program keeps an invariant, whether it returns or throws. -/
def Keeps (I : σ → Prop) (x : EStateM ε σ α) : Prop := Triple I x (fun _ => I) fun _ => I

/-- A value that may be an exception. -/
def liftExcept : Except ε α → EStateM ε σ α
  | .ok a => pure a
  | .error e => throw e

namespace Triple

variable {P P' : σ → Prop} {Q Q' : α → σ → Prop} {E E' : ε → σ → Prop} {R : β → σ → Prop}
  {x : EStateM ε σ α}

theorem mono (h : Triple P x Q E) (hP : ∀ s, P' s → P s) (hQ : ∀ a s, Q a s → Q' a s)
    (hE : ∀ e s, E e s → E' e s) : Triple P' x Q' E' := by
  intro s hs
  have hx := h s (hP s hs)
  cases hrun : x s with
  | ok a t =>
    rw [hrun] at hx
    exact hQ a t hx
  | error e t =>
    rw [hrun] at hx
    exact hE e t hx

theorem done {a : α} (h : ∀ s, P s → Q a s) : Triple P (pure a : EStateM ε σ α) Q E := h

theorem raise {e : ε} (h : ∀ s, P s → E e s) : Triple P (throw e : EStateM ε σ α) Q E := h

theorem update {f : σ → σ} {Q : PUnit → σ → Prop} (h : ∀ s, P s → Q ⟨⟩ (f s)) :
    Triple P (modify f : EStateM ε σ PUnit) Q E := h

theorem lift {r : Except ε α} (hok : ∀ a, r = .ok a → ∀ s, P s → Q a s)
    (herror : ∀ e, r = .error e → ∀ s, P s → E e s) : Triple P (liftExcept r) Q E := by
  cases r with
  | ok a => exact done (hok a rfl)
  | error e => exact raise (herror e rfl)

/-- The rule of sequential composition. -/
theorem seq {f : α → EStateM ε σ β} (hx : Triple P x Q E) (hf : ∀ a, Triple (Q a) (f a) R E) :
    Triple P (x >>= f) R E := by
  intro s hs
  have hmid := hx s hs
  show match EStateM.bind x f s with
    | .ok b t => R b t
    | .error e t => E e t
  unfold EStateM.bind
  cases hrun : x s with
  | ok a t =>
    rw [hrun] at hmid
    exact hf a t hmid
  | error e t =>
    rw [hrun] at hmid
    exact hmid

theorem handle {handler : ε → EStateM ε σ α} (hx : Triple P x Q E)
    (hhandler : ∀ e, Triple (E e) (handler e) Q E') : Triple P (tryCatch x handler) Q E' := by
  intro s hs
  have hmid := hx s hs
  show match EStateM.tryCatch x handler s with
    | .ok a t => Q a t
    | .error e t => E' e t
  unfold EStateM.tryCatch
  cases hrun : x s with
  | ok a t =>
    rw [hrun] at hmid
    exact hmid
  | error e t =>
    rw [hrun] at hmid
    exact hhandler e t hmid

/-- The finalizer runs in any case, and an exception that it throws takes precedence. -/
theorem finalize {finalizer : EStateM ε σ β} (hx : Triple P x Q E)
    (hok : ∀ a, Triple (Q a) finalizer (fun _ => Q' a) E')
    (herror : ∀ e, Triple (E e) finalizer (fun _ => E' e) E') :
    Triple P (tryFinally x finalizer) Q' E' := by
  intro s hs
  have hmid := hx s hs
  cases hrun : x s with
  | ok a t =>
    rw [hrun] at hmid
    have hfinal := hok a t hmid
    cases hlast : finalizer t <;>
      simp_all [tryFinally,tryFinally',Functor.map,EStateM.map]
  | error e t =>
    rw [hrun] at hmid
    have hfinal := herror e t hmid
    cases hlast : finalizer t <;>
      simp_all [tryFinally,tryFinally',Functor.map,EStateM.map]

end Triple

namespace Keeps

variable {I : σ → Prop} {x : EStateM ε σ α}

theorem lift (r : Except ε α) : Keeps I (liftExcept r) :=
  Triple.lift (fun _ _ _ hs => hs) fun _ _ _ hs => hs

theorem done (a : α) : Keeps I (pure a : EStateM ε σ α) := Triple.done fun _ hs => hs

theorem update {f : σ → σ} (h : ∀ s, I s → I (f s)) : Keeps I (modify f : EStateM ε σ PUnit) :=
  Triple.update h

theorem seq {f : α → EStateM ε σ β} (hx : Keeps I x) (hf : ∀ a, Keeps I (f a)) :
    Keeps I (x >>= f) :=
  Triple.seq hx hf

theorem split {c : Prop} [Decidable c] {y : EStateM ε σ α} (hx : Keeps I x) (hy : Keeps I y) :
    Keeps I (if c then x else y) := by
  split
  · exact hx
  · exact hy

/-- What comes after a program that keeps the invariant. -/
theorem before (hx : Keeps I x) {f : α → EStateM ε σ β} {R : β → σ → Prop} {E : ε → σ → Prop}
    (hE : ∀ e s, I s → E e s) (hf : ∀ a, Triple I (f a) R E) : Triple I (x >>= f) R E :=
  Triple.seq (hx.mono (fun _ => id) (fun _ _ => id) hE) hf

end Keeps

end SystemsLab
