import Mathlib.Data.List.Basic
import Mathlib.Data.List.Induction
import Mathlib.Logic.Function.Basic
import Mathlib.Tactic.Basic

/-!
# Partial step functions and their runs

A system is a partial step function: an event that is not enabled in a state has no
successor. A schedule is a list of events, oldest first, so quantifying over schedules
quantifies over every interleaving of the parties that issue the events.
-/

namespace SystemsLab

variable {σ ε : Type*}

/-- Replay a schedule; it fails as soon as one of its events is not enabled. -/
def run (step : σ → ε → Option σ) : σ → List ε → Option σ
  | s, [] => some s
  | s, e::es => (step s e).bind fun t => run step t es

/-- Every event of a schedule meets `ok` in the state it is taken from. -/
def Along (step : σ → ε → Option σ) (ok : σ → ε → Prop) : σ → List ε → Prop
  | _, [] => True
  | s, e::es => ok s e ∧ ∀ t, step s e = some t → Along step ok t es

/-- States reached from `init` by steps that all meet `ok`. -/
inductive ReachableBy (step : σ → ε → Option σ) (init : σ → Prop) (ok : σ → ε → Prop) : σ → Prop
  | start {s : σ} : init s → ReachableBy step init ok s
  | next {s t : σ} {e : ε} : ReachableBy step init ok s → ok s e → step s e = some t →
      ReachableBy step init ok t

/-- States reached by arbitrary runs. -/
abbrev Reachable (step : σ → ε → Option σ) (init : σ → Prop) : σ → Prop :=
  ReachableBy step init fun _ _ => True

variable {step : σ → ε → Option σ} {init : σ → Prop} {ok : σ → ε → Prop}

@[simp] theorem run_nil (s : σ) : run step s [] = some s := rfl

theorem run_cons (s : σ) (e : ε) (es : List ε) :
    run step s (e::es) = (step s e).bind fun t => run step t es := rfl

theorem run_cons_of {s m : σ} {e : ε} (h : step s e = some m) (es : List ε) :
    run step s (e::es) = run step m es := by
  rw [run_cons,h]
  rfl

theorem run_cons_some {s t : σ} {e : ε} {es : List ε} (h : run step s (e::es) = some t) :
    ∃ m, step s e = some m ∧ run step m es = some t :=
  Option.bind_eq_some_iff.mp h

theorem run_append (s : σ) (es es' : List ε) :
    run step s (es ++ es') = (run step s es).bind fun t => run step t es' := by
  induction es generalizing s with
  | nil => rfl
  | cons e es ih =>
    rw [List.cons_append,run_cons,run_cons,Option.bind_assoc]
    congr 1
    funext m
    exact ih m

theorem run_history {P : List ε → σ → Prop} {s t : σ} {es : List ε} (hnil : P [] s)
    (hsnoc : ∀ es t e u, P es t → step t e = some u → P (es ++ [e]) u)
    (hrun : run step s es = some t) : P es t := by
  induction es using List.reverseRecOn generalizing t with
  | nil =>
    obtain rfl : s = t := by simpa using hrun
    exact hnil
  | append_singleton es e ih =>
    rw [run_append] at hrun
    obtain ⟨m,hm,hlast⟩ := Option.bind_eq_some_iff.mp hrun
    obtain ⟨u,hu,hend⟩ := run_cons_some hlast
    obtain rfl : u = t := by simpa using hend
    exact hsnoc es m e u (ih hm) hu

/-- The invariant rule: what holds initially and survives every admitted step holds in
every state an admitted run reaches. -/
theorem ReachableBy.invariant {Inv : σ → Prop} (hinit : ∀ s, init s → Inv s)
    (hstep : ∀ s e t, Inv s → ok s e → step s e = some t → Inv t) {s : σ}
    (h : ReachableBy step init ok s) : Inv s := by
  induction h with
  | start h => exact hinit _ h
  | next _ hok hs ih => exact hstep _ _ _ ih hok hs

theorem ReachableBy.mono {ok' : σ → ε → Prop} (hok : ∀ s e, ok s e → ok' s e) {s : σ}
    (h : ReachableBy step init ok s) : ReachableBy step init ok' s := by
  induction h with
  | start h => exact .start h
  | next _ ho hs ih => exact .next ih (hok _ _ ho) hs

theorem ReachableBy.run {s t : σ} {es : List ε} (h : ReachableBy step init ok s)
    (halong : Along step ok s es) (hrun : run step s es = some t) :
    ReachableBy step init ok t := by
  induction es generalizing s with
  | nil =>
    obtain rfl : s = t := by simpa using hrun
    exact h
  | cons e es ih =>
    obtain ⟨m, hm, hrest⟩ := run_cons_some hrun
    exact ih (.next h halong.1 hm) (halong.2 m hm) hrest

theorem along_of_forall {q : ε → Prop} {es : List ε} (h : ∀ e ∈ es, q e) (s : σ) :
    Along step (fun _ e => q e) s es := by
  induction es generalizing s with
  | nil => trivial
  | cons e es ih =>
    refine ⟨h e List.mem_cons_self,fun t _ => ih ?_ t⟩
    exact fun e' he' => h e' (List.mem_cons_of_mem _ he')

theorem along_forall_iff {q : ε → Prop} {s t : σ} {es : List ε}
    (hrun : SystemsLab.run step s es = some t) :
    Along step (fun _ e => q e) s es ↔ ∀ e ∈ es, q e := by
  refine ⟨fun halong => ?_,fun h => along_of_forall h s⟩
  induction es generalizing s with
  | nil => nofun
  | cons e es ih =>
    obtain ⟨m,hm,hrest⟩ := run_cons_some hrun
    exact List.forall_mem_cons.mpr ⟨halong.1,ih hrest (halong.2 m hm)⟩

theorem Along.and {ok' : σ → ε → Prop} {s : σ} {es : List ε} (h : Along step ok s es)
    (h' : Along step ok' s es) : Along step (fun s e => ok s e ∧ ok' s e) s es := by
  induction es generalizing s with
  | nil => trivial
  | cons e es ih => exact ⟨⟨h.1,h'.1⟩,fun t ht => ih (h.2 t ht) (h'.2 t ht)⟩

theorem along_true (s : σ) (es : List ε) : Along step (fun _ _ => True) s es :=
  along_of_forall (fun _ _ => trivial) s

theorem Reachable.run {s t : σ} {es : List ε} (h : Reachable step init s)
    (hrun : run step s es = some t) : Reachable step init t :=
  ReachableBy.run h (along_true s es) hrun

/-- What a schedule leads to can be computed by replaying it. -/
theorem exists_run_of_any {s : σ} {es : List ε} {p : σ → Bool}
    (h : (SystemsLab.run step s es).any p = true) :
    ∃ t, SystemsLab.run step s es = some t ∧ p t = true ∧ Reachable step (· = s) t := by
  obtain ⟨t,hrun,hp⟩ := (Option.any_eq_true _ _).mp h
  have hstart : Reachable step (· = s) s := .start rfl
  exact ⟨t,hrun,hp,hstart.run hrun⟩

theorem along_cons (s : σ) (e : ε) (es : List ε) :
    Along step ok s (e::es) ↔ ok s e ∧ match step s e with
      | none => True
      | some t => Along step ok t es := by
  simp only [Along]
  cases step s e <;> simp

/-- Whether a schedule meets a decidable condition can be computed by replaying it. -/
instance decidableAlong [∀ s e, Decidable (ok s e)] :
    ∀ (s : σ) (es : List ε), Decidable (Along step ok s es)
  | _, [] => isTrue trivial
  | s, e::es =>
    have : Decidable (match step s e with
        | none => True
        | some t => Along step ok t es) :=
      match step s e with
      | none => isTrue trivial
      | some t => decidableAlong t es
    decidable_of_iff _ (along_cons s e es).symm

/-- Under an invariant, a condition on the events of a run may be traded for a weaker one. -/
theorem Along.imp {ok' : σ → ε → Prop} {Inv : σ → Prop}
    (hstep : ∀ s e t, Inv s → step s e = some t → Inv t)
    (himp : ∀ s e t, Inv s → step s e = some t → ok s e → ok' s e) {s t : σ} {es : List ε}
    (hs : Inv s) (hrun : run step s es = some t) (h : Along step ok s es) :
    Along step ok' s es := by
  induction es generalizing s with
  | nil => trivial
  | cons e es ih =>
    obtain ⟨m, hm, hrest⟩ := run_cons_some hrun
    refine ⟨himp s e m hs hm h.1, fun m' hm' => ?_⟩
    obtain rfl : m = m' := Option.some.inj (hm.symm.trans hm')
    exact ih (hstep s e m hs hm) hrest (h.2 m hm)

theorem run_invariant {Inv : σ → Prop}
    (hstep : ∀ s e t, Inv s → step s e = some t → Inv t) {s t : σ} {es : List ε}
    (h : Inv s) (hrun : run step s es = some t) : Inv t := by
  induction es generalizing s with
  | nil =>
    obtain rfl : s = t := by simpa using hrun
    exact h
  | cons e es ih =>
    obtain ⟨m, hm, hrest⟩ := run_cons_some hrun
    exact ih (hstep _ _ _ h hm) hrest

/-- The invariant rule for a run whose steps meet a condition. -/
theorem Along.invariant {Inv : σ → Prop} {s t : σ} {es : List ε} (halong : Along step ok s es)
    (hrun : SystemsLab.run step s es = some t) (h : Inv s)
    (hstep : ∀ s e t, Inv s → ok s e → step s e = some t → Inv t) : Inv t := by
  have hreachable : ReachableBy step (· = s) ok t := ReachableBy.run (.start rfl) halong hrun
  exact hreachable.invariant (fun _ hs => hs ▸ h) hstep

/-- The variant rule: what each own step lowers and no other step raises bounds the number of own
steps. -/
theorem run_variant {Inv : σ → Prop} (own : ε → Bool) (variant : σ → Nat)
    (hkeep : ∀ s e t, Inv s → ok s e → step s e = some t → Inv t)
    (hlower : ∀ s e t, Inv s → ok s e → step s e = some t →
      variant t + (if own e then 1 else 0) ≤ variant s)
    {s t : σ} {es : List ε} (h : Inv s) (halong : Along step ok s es)
    (hrun : run step s es = some t) : es.countP own + variant t ≤ variant s := by
  induction es generalizing s with
  | nil =>
    obtain rfl : s = t := by simpa using hrun
    simp
  | cons e es ih =>
    obtain ⟨m, hm, hrest⟩ := run_cons_some hrun
    have htail := ih (hkeep s e m h halong.1 hm) (halong.2 m hm) hrest
    have hhead := hlower s e m h halong.1 hm
    rw [List.countP_cons]
    omega

/-- The potential rule: what only charged steps raise, by one at most, is bounded by their number. -/
theorem run_potential {Inv : σ → Prop} (charged : ε → Bool) (potential : σ → Nat)
    (hkeep : ∀ s e t, Inv s → ok s e → step s e = some t → Inv t)
    (hraise : ∀ s e t, Inv s → ok s e → step s e = some t →
      potential t ≤ potential s + (if charged e then 1 else 0))
    {s t : σ} {es : List ε} (h : Inv s) (halong : Along step ok s es)
    (hrun : run step s es = some t) : potential t ≤ potential s + es.countP charged := by
  induction es generalizing s with
  | nil =>
    obtain rfl : s = t := by simpa using hrun
    simp
  | cons e es ih =>
    obtain ⟨m,hm,hrest⟩ := run_cons_some hrun
    have htail := ih (hkeep s e m h halong.1 hm) (halong.2 m hm) hrest
    have hhead := hraise s e m h halong.1 hm
    rw [List.countP_cons]
    omega

/-- Two conditions that agree as long as an invariant holds, which the second one keeps, are met
by the same runs. -/
theorem along_iff {ok' : σ → ε → Prop} (Inv : σ → Prop)
    (hkeep : ∀ s e t, Inv s → ok s e → step s e = some t → Inv t)
    (hiff : ∀ s e t, Inv s → step s e = some t → (ok' s e ↔ ok s e)) {s t : σ} {es : List ε}
    (hs : Inv s) (hrun : run step s es = some t) : Along step ok' s es ↔ Along step ok s es := by
  induction es generalizing s with
  | nil => exact Iff.rfl
  | cons e es ih =>
    obtain ⟨m, hm, hrest⟩ := run_cons_some hrun
    simp only [along_cons, hm, hiff s e m hs hm]
    by_cases hok : ok s e
    · rw [ih (hkeep s e m hs hok hm) hrest]
    · exact iff_of_false (fun h => hok h.1) fun h => hok h.1

/-- The exact-condition rule, among the runs that are `allowed`. Steps that meet `ok` keep an
invariant that implies the property; the first step that does not meet it breaks the property for
good. Then a run ends with the property exactly when each of its steps met the condition. -/
theorem run_property_iff_along_of {allowed : σ → ε → Prop} {Inv Broken P : σ → Prop}
    (hkeep : ∀ s e t, Inv s → allowed s e → ok s e → step s e = some t → Inv t)
    (hbreak : ∀ s e t, Inv s → allowed s e → ¬ ok s e → step s e = some t → Broken t)
    (hstuck : ∀ s e t, Broken s → step s e = some t → Broken t)
    (hP : ∀ s, Inv s → P s) (hB : ∀ s, Broken s → ¬ P s)
    {s t : σ} {es : List ε} (h : Inv s) (hallowed : Along step allowed s es)
    (hrun : run step s es = some t) : P t ↔ Along step ok s es := by
  induction es generalizing s with
  | nil =>
    obtain rfl : s = t := by simpa using hrun
    exact iff_of_true (hP _ h) trivial
  | cons e es ih =>
    obtain ⟨m, hm, hrest⟩ := run_cons_some hrun
    by_cases hok : ok s e
    · rw [ih (hkeep _ _ _ h hallowed.1 hok hm) (hallowed.2 m hm) hrest]
      constructor
      · intro ha
        refine ⟨hok, fun t ht => ?_⟩
        obtain rfl : m = t := Option.some.inj (hm.symm.trans ht)
        exact ha
      · exact fun ha => ha.2 m hm
    · refine iff_of_false ?_ fun ha => hok ha.1
      exact hB _ (run_invariant hstuck (hbreak _ _ _ h hallowed.1 hok hm) hrest)

theorem run_property_iff_along {Inv Broken P : σ → Prop}
    (hkeep : ∀ s e t, Inv s → ok s e → step s e = some t → Inv t)
    (hbreak : ∀ s e t, Inv s → ¬ ok s e → step s e = some t → Broken t)
    (hstuck : ∀ s e t, Broken s → step s e = some t → Broken t)
    (hP : ∀ s, Inv s → P s) (hB : ∀ s, Broken s → ¬ P s)
    {s t : σ} {es : List ε} (h : Inv s) (hrun : run step s es = some t) :
    P t ↔ Along step ok s es :=
  run_property_iff_along_of (fun s e t hs _ => hkeep s e t hs)
    (fun s e t hs _ => hbreak s e t hs) hstuck hP hB h (along_true s es) hrun

variable {κ β : Type*} {f : κ → Option β} {k m : κ} {b c : β}

theorem forall_of_eq_some {P : β → Prop} (hk : f k = some b) (hP : P b) :
    ∀ c, f k = some c → P c := by
  intro c hc
  rw [hk] at hc
  cases hc
  exact hP

variable [DecidableEq κ]

theorem update_eq_some (h : Function.update f k (some b) m = some c) :
    m = k ∧ c = b ∨ m ≠ k ∧ f m = some c := by
  by_cases hm : m = k
  · subst hm
    rw [Function.update_self] at h
    exact .inl ⟨rfl,(Option.some.inj h).symm⟩
  · rw [Function.update_of_ne hm] at h
    exact .inr ⟨hm,h⟩

theorem update_eq_none (h : Function.update f k (some b) m = none) : m ≠ k ∧ f m = none := by
  by_cases hm : m = k
  · subst hm
    rw [Function.update_self] at h
    cases h
  · rw [Function.update_of_ne hm] at h
    exact ⟨hm,h⟩

theorem update_of_some (hk : f k = none) (hm : f m = some c) :
    Function.update f k (some b) m = some c := by
  rw [Function.update_of_ne]
  · exact hm
  · rintro rfl
    rw [hk] at hm
    cases hm

end SystemsLab
