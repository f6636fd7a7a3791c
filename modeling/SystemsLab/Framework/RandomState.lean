import Mathlib.Data.Nat.Init

/-!
# Programs over a random state

A program that draws random numbers moves a state along which it cannot look into. What it
returns is then known only as far as it holds for every state. Two programs are in lockstep if
they leave every state the same and return related values: they have drawn the same numbers in
the same order.
-/

namespace SystemsLab

variable {σ : Type} {α β γ δ ι : Type}

/-- Whatever is drawn, the value returned has the property. -/
structure Always (P : α → Prop) (x : StateM σ α) : Prop where
  value : ∀ s, P (x.run s).1

/-- Both programs draw the same numbers, and return related values. -/
structure Lockstep (R : α → β → Prop) (x : StateM σ α) (y : StateM σ β) : Prop where
  state : ∀ s, (x.run s).2 = (y.run s).2
  value : ∀ s, R (x.run s).1 (y.run s).1

section Always

variable {P : α → Prop} {Q : β → Prop} {x : StateM σ α}

theorem Always.pure {a : α} (h : P a) : Always (σ := σ) P (Pure.pure a) := ⟨fun _ => h⟩

theorem Always.mono {P' : α → Prop} (h : Always P x) (hmono : ∀ a, P a → P' a) : Always P' x :=
  ⟨fun s => hmono _ (h.value s)⟩

theorem Always.bind {f : α → StateM σ β} (hx : Always P x) (hf : ∀ a, P a → Always Q (f a)) :
    Always Q (x >>= f) :=
  ⟨fun s => (hf _ (hx.value s)).value (x.run s).2⟩

theorem Always.draw {f : α → StateM σ β} (x : StateM σ α) (hf : ∀ a, Always Q (f a)) :
    Always Q (x >>= f) :=
  ⟨fun s => (hf _).value (x.run s).2⟩

/-- The invariant of a loop may refer to the number of turns taken. -/
theorem Always.foldlM {I : Nat → β → Prop} {f : β → ι → StateM σ β} {items : List ι} {b : β}
    (h : I 0 b)
    (hstep : ∀ k (hk : k < items.length) c, I k c → Always (I (k + 1)) (f c items[k])) :
    Always (I items.length) (items.foldlM f b) := by
  induction items generalizing I b with
  | nil => exact Always.pure h
  | cons i rest ih =>
    have hfirst : Always (I 1) (f b i) := hstep 0 (Nat.zero_lt_succ _) b h
    rw [List.foldlM_cons]
    refine Always.bind hfirst fun c hc => ?_
    exact ih (I := fun k => I (k + 1)) hc fun k hk d hd =>
      hstep (k + 1) (Nat.succ_lt_succ hk) d hd

/-- A turn of a loop that goes on leaves a smaller state behind. -/
def Lowers (size : β → Nat) (body : β → StateM σ (β ⊕ α)) : Prop :=
  ∀ b, Always (fun r => ∀ c, r = .inl c → size c < size b) (body b)

theorem Lowers.lt {size : β → Nat} {body : β → StateM σ (β ⊕ α)} (h : Lowers size body) {b c : β}
    {s s' : σ} (hrun : (body b).run s = (.inl c,s')) : size c < size b := by
  have hlower := (h b).value s
  rw [hrun] at hlower
  exact hlower c rfl

/-- Repeat `body` until it returns. -/
def repeatM (size : β → Nat) (body : β → StateM σ (β ⊕ α)) (h : Lowers size body) (b : β) :
    StateM σ α := fun s =>
  match hrun : (body b).run s with
  | (.inl c,s') =>
    have := h.lt hrun
    repeatM size body h c s'
  | (.inr a,s') => (a,s')
termination_by size b

theorem Always.repeatM {I : β → Prop} {size : β → Nat} {body : β → StateM σ (β ⊕ α)}
    (hlowers : Lowers size body)
    (hstep : ∀ b, I b → Always (Sum.elim I P) (body b)) {b : β} (h : I b) :
    Always P (repeatM size body hlowers b) := by
  induction hsize : size b using Nat.strong_induction_on generalizing b with
  | _ n ih =>
    constructor
    intro s
    have hturn := (hstep b h).value s
    show P (SystemsLab.repeatM size body hlowers b s).1
    rw [SystemsLab.repeatM]
    split
    · rename_i c s' hrun
      rw [hrun] at hturn
      exact (ih _ (hsize ▸ hlowers.lt hrun) hturn rfl).value s'
    · rename_i a s' hrun
      rw [hrun] at hturn
      exact hturn

end Always

section Lockstep

variable {R : α → β → Prop} {S : γ → δ → Prop}

theorem Lockstep.pure {a : α} {b : β} (h : R a b) :
    Lockstep (σ := σ) R (Pure.pure a) (Pure.pure b) := ⟨fun _ => rfl,fun _ => h⟩

theorem Lockstep.bind {x : StateM σ α} {y : StateM σ β} {f : α → StateM σ γ}
    {g : β → StateM σ δ} (h : Lockstep R x y)
    (hfg : ∀ a b, R a b → Lockstep S (f a) (g b)) : Lockstep S (x >>= f) (y >>= g) := by
  have hrest : ∀ s, Lockstep S (f (x.run s).1) (g (y.run s).1) := fun s => hfg _ _ (h.value s)
  constructor
  · intro s
    show ((f (x.run s).1).run (x.run s).2).2 = ((g (y.run s).1).run (y.run s).2).2
    rw [← h.state s]
    exact (hrest s).state _
  · intro s
    show S ((f (x.run s).1).run (x.run s).2).1 ((g (y.run s).1).run (y.run s).2).1
    rw [← h.state s]
    exact (hrest s).value _

theorem Lockstep.draw {f : α → StateM σ γ} {g : α → StateM σ δ} (x : StateM σ α)
    (hfg : ∀ a, Lockstep S (f a) (g a)) : Lockstep S (x >>= f) (x >>= g) :=
  ⟨fun s => (hfg _).state (x.run s).2,fun s => (hfg _).value (x.run s).2⟩

/-- Two loops over the same items, whose accumulators stay related. -/
theorem Lockstep.foldlM {f : α → ι → StateM σ α} {g : β → ι → StateM σ β}
    (h : ∀ i a b, R a b → Lockstep R (f a i) (g b i)) (items : List ι) {a : α} {b : β}
    (hab : R a b) : Lockstep R (items.foldlM f a) (items.foldlM g b) := by
  induction items generalizing a b with
  | nil => exact Lockstep.pure hab
  | cons i rest ih => exact Lockstep.bind (h i a b hab) fun c d hcd => ih hcd

end Lockstep

end SystemsLab
