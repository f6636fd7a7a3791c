import SystemsLab.Caching.LeaseStages

/-!
# When a lease gives a single flight

A lease that is granted to a filled cache asks the database again, and nothing takes that back. So
a run has a single flight exactly if no lease is granted so, and no call gives up.
-/

namespace SystemsLab.Caching

open Locks

variable {α : Type} {json : ProductJson α} {w w' : LeaseWorld α} {n : Nat} {c : LeaseCall α}

/-- No step takes back an invocation or a result, whatever goes wrong. -/
structure LeaseWorld.Extends (w w' : LeaseWorld α) : Prop where
  invocations : w.invocations ≤ w'.invocations
  settled : ∀ n c outcome, w.call n = some c → c.phase = .settled outcome → w'.call n = some c

private theorem LeaseWorld.Extends.put
    (hopen : ∀ d outcome, w.call n = some d → d.phase ≠ .settled outcome)
    (hcall : w'.call = Function.update w.call n (some c))
    (hinvocations : w.invocations ≤ w'.invocations) : w.Extends w' := by
  refine ⟨hinvocations,fun m d outcome hd hsettled => ?_⟩
  rw [hcall,Function.update_of_ne]
  · exact hd
  · rintro rfl
    exact hopen d outcome hd hsettled

private theorem acquire_extends {attempt : Nat} {owner : String}
    (hopen : ∀ d outcome, w.call n = some d → d.phase ≠ .settled outcome) :
    w.Extends (w.acquire n c attempt owner) := by
  unfold LeaseWorld.acquire
  split
  · exact .put hopen rfl (Nat.le_refl _)
  · exact .put hopen rfl (Nat.le_succ _)
  · exact .put hopen rfl (Nat.le_refl _)

private theorem loopHead_extends {attempt : Nat} {deadline : Int}
    (hopen : ∀ d outcome, w.call n = some d → d.phase ≠ .settled outcome) :
    w.Extends (w.loopHead n c attempt deadline) := by
  unfold LeaseWorld.loopHead LeaseWorld.afterPolling
  split
  · exact .put hopen rfl (Nat.le_refl _)
  · split
    · exact .put hopen rfl (Nat.le_refl _)
    · exact .put hopen rfl (Nat.le_refl _)

private theorem not_settled (hc : w.call n = some c) (hp : ∀ outcome, c.phase ≠ .settled outcome) :
    ∀ d outcome, w.call n = some d → d.phase ≠ .settled outcome := by
  intro d outcome hd
  rw [hc] at hd
  cases hd
  exact hp outcome

private theorem command_extends {owner : String} (hc : w.call n = some c)
    (h : w.command json n owner c = some w') : w.Extends w' := by
  unfold LeaseWorld.command at h
  split at h
  · rename_i attempt hp
    have hopen := not_settled hc (by rw [hp]; nofun)
    split at h
    · cases h
      exact .put hopen rfl (Nat.le_refl _)
    · unfold LeaseWorld.miss at h
      split at h
      · cases h
      · cases h
        exact .put hopen rfl (Nat.le_refl _)
  · rename_i attempt owner hp
    cases h
    exact acquire_extends (not_settled hc (by rw [hp]; nofun))
  · rename_i owner product hp
    have hopen := not_settled hc (by rw [hp]; nofun)
    cases h
    unfold LeaseWorld.fill
    split
    · exact .put hopen rfl (Nat.le_refl _)
    · exact .put hopen rfl (Nat.le_refl _)
  · rename_i owner outcome hp
    cases h
    exact .put (not_settled hc (by rw [hp]; nofun)) rfl (Nat.le_refl _)
  · rename_i attempt deadline hp
    have hopen := not_settled hc (by rw [hp]; nofun)
    split at h
    · cases h
      exact .put hopen rfl (Nat.le_refl _)
    · cases h
      exact .put hopen rfl (Nat.le_refl _)
  · cases h

private theorem resume_extends (hc : w.call n = some c) (h : w.resume n c = some w') :
    w.Extends w' := by
  unfold LeaseWorld.resume at h
  split at h
  · rename_i attempt hp
    cases h
    exact loopHead_extends (not_settled hc (by rw [hp]; nofun))
  · rename_i attempt deadline wakeAt hp
    split at h
    · cases h
      exact loopHead_extends (not_settled hc (by rw [hp]; nofun))
    · cases h
  · cases h

private theorem fail_extends {error : String} (hc : w.call n = some c)
    (h : w.fail n c error = some w') : w.Extends w' := by
  unfold LeaseWorld.fail at h
  split at h
  · rename_i owner hp
    cases h
    exact .put (not_settled hc (by rw [hp]; nofun)) rfl (Nat.le_refl _)
  · rename_i owner product hp
    cases h
    exact .put (not_settled hc (by rw [hp]; nofun)) rfl (Nat.le_refl _)
  · cases h
  · cases h
  · cases h
  · rename_i hp
    cases h
    exact .put (not_settled hc hp) rfl (Nat.le_refl _)

private theorem leaseStep_extends {e : LeaseEvent α} (h : leaseStep json w e = some w') :
    w.Extends w' := by
  unfold leaseStep at h
  cases e with
  | getProduct options =>
    dsimp only at h
    split at h
    · cases h
    · rename_i hfree
      cases h
      refine .put (fun d outcome hd => ?_) rfl (Nat.le_refl _)
      rw [hfree] at hd
      cases hd
  | redis n owner =>
    dsimp only at h
    split at h
    · rename_i c hc
      exact command_extends hc h
    · cases h
  | database n product =>
    dsimp only at h
    split at h
    · rename_i options owner hc
      cases h
      exact .put (not_settled hc nofun) rfl (Nat.le_refl _)
    · cases h
  | resume n =>
    dsimp only at h
    split at h
    · rename_i c hc
      exact resume_extends hc h
    · cases h
  | fail n error =>
    dsimp only at h
    split at h
    · rename_i c hc
      exact fail_extends hc h
    · cases h
  | advance ms =>
    cases h
    exact ⟨Nat.le_refl _,fun _ _ _ hc _ => hc⟩

/-- The database was asked twice, or a call has thrown. -/
def LeaseWorld.Broken (w : LeaseWorld α) : Prop :=
  2 ≤ w.invocations ∨ ∃ n c error, w.call n = some c ∧ c.phase = .settled (.error error)

theorem LeaseWorld.Broken.step {e : LeaseEvent α} (h : w.Broken)
    (hs : leaseStep json w e = some w') : w'.Broken := by
  have hextends := leaseStep_extends hs
  rcases h with htwice | ⟨n,c,error,hc,hp⟩
  · exact .inl (htwice.trans hextends.invocations)
  · exact .inr ⟨n,c,error,hextends.settled n c _ hc hp,hp⟩

private theorem broken_of_races {owner : String} (h : w.Sound json) (hc : w.call n = some c)
    (hraces : w.races c = true) (hs : w.command json n owner c = some w') : w'.Broken := by
  unfold LeaseWorld.races at hraces
  split at hraces
  · rename_i attempt token hp
    rw [Bool.and_eq_true,Option.isNone_iff_eq_none] at hraces
    obtain ⟨hlease,hentry⟩ := hraces
    unfold LeaseWorld.command at hs
    rw [hp] at hs
    cases hs
    have hset : w.redis.setNxPx w.clock w.lockKey token c.options.leaseMs =
        .ok (Function.update w.redis w.lockKey
          (some ⟨.text token,some (w.clock + c.options.leaseMs)⟩),true) := by
      unfold Keyspace.setNxPx
      have hpositive := (h.known n c hc).2.1
      rw [if_neg (by omega),hlease]
    unfold LeaseWorld.acquire
    rw [hset]
    have hinv : w.invocations = 1 := by
      cases h.stage with
      | cold hnone _ _ _ _ =>
        rw [hnone] at hentry
        cases hentry
      | refilling _ _ _ hnone _ _ _ _ _ =>
        rw [hnone] at hentry
        cases hentry
      | filled e product _ _ hinv _ _ => exact hinv
    exact .inl (Nat.le_of_eq (congrArg (· + 1) hinv).symm)
  · cases hraces

private theorem broken_of_loopHead {attempt : Nat} {deadline : Int} (hover : deadline ≤ w.clock)
    (hattempts : c.options.maxAttempts ≤ attempt) :
    (w.loopHead n c attempt deadline).Broken := by
  unfold LeaseWorld.loopHead LeaseWorld.afterPolling
  rw [if_neg (Int.not_lt.mpr hover),if_pos hattempts]
  exact .inr ⟨n,_,_,Function.update_self _ _ _,rfl⟩

private theorem broken_of_givesUp (hgives : w.givesUp c = true) (hs : w.resume n c = some w') :
    w'.Broken := by
  unfold LeaseWorld.givesUp at hgives
  unfold LeaseWorld.resume at hs
  split at hgives
  · rename_i attempt hp
    rw [hp] at hs
    cases hs
    obtain ⟨hnever,hattempts⟩ := of_decide_eq_true hgives
    exact broken_of_loopHead (by omega) hattempts
  · rename_i attempt deadline wakeAt hp
    rw [hp] at hs
    dsimp only at hs
    split at hs
    · cases hs
      obtain ⟨hover,hattempts⟩ := of_decide_eq_true hgives
      exact broken_of_loopHead hover hattempts
    · cases hs
  · cases hgives

private theorem broken_of_not_unraced {e : LeaseEvent α} (h : w.Sound json) (he : ¬ e.Unraced w)
    (hs : leaseStep json w e = some w') : w'.Broken := by
  unfold leaseStep at hs
  cases e with
  | redis n owner =>
    dsimp only at hs
    split at hs
    · rename_i c hc
      refine broken_of_races h hc ?_ hs
      by_contra hraces
      exact he (forall_of_eq_some hc (Bool.eq_false_iff.mpr hraces))
    · cases hs
  | resume n =>
    dsimp only at hs
    split at hs
    · rename_i c hc
      refine broken_of_givesUp (c := c) ?_ hs
      by_contra hgives
      exact he (forall_of_eq_some hc (Bool.eq_false_iff.mpr hgives))
    · cases hs
  | getProduct options => exact absurd trivial he
  | database n product => exact absurd trivial he
  | fail n error => exact absurd trivial he
  | advance ms => exact absurd trivial he

/-- The database is asked once, and every call that is over returns what it has replied. -/
structure LeaseWorld.SingleFlight (w : LeaseWorld α) : Prop where
  once : w.invocations ≤ 1
  returned : ∀ n c outcome, w.call n = some c → c.phase = .settled outcome →
    w.invocations = 1 ∧ ∃ product, outcome = .ok product ∧ w.produced = [product]

private theorem LeaseWorld.Sound.singleFlight (h : w.Sound json) : w.SingleFlight := by
  refine ⟨?_,fun n c outcome hc hp => ?_⟩
  · cases h.stage with
    | cold _ _ hinv _ _ => omega
    | refilling _ _ _ _ _ hinv _ _ _ => omega
    | filled _ _ _ _ hinv _ _ => omega
  · obtain ⟨e,product,_,_,hinv,hprod,hall⟩ :=
      h.stage.of_served hc (by rw [hp]; rfl) (by rw [hp]; rfl)
    have hserved := hall n c hc
    rw [hp] at hserved
    exact ⟨hinv,product,hserved,hprod⟩

private theorem LeaseWorld.Broken.not_singleFlight (h : w.Broken) : ¬ w.SingleFlight := by
  intro hsingle
  rcases h with htwice | ⟨n,c,error,hc,hp⟩
  · have honce := hsingle.once
    omega
  · obtain ⟨_,product,hok,_⟩ := hsingle.returned n c _ hc hp
    cases hok

/-- The JSON texts of two products that differ in one flag. -/
def flagJson : ProductJson Bool where
  stringify product := if product then "true" else "false"
  parse text :=
    if text = "true" then .ok true
    else if text = "false" then .ok false
    else .error "SyntaxError"
  parse_stringify product := by cases product <;> rfl
  stringify_ne product := by cases product <;> decide

def coldCache : LeaseWorld Bool where
  productId := 1
  redis _ := none
  clock := 0

private theorem coldCache_cold : coldCache.Cold := ⟨rfl,rfl,rfl,rfl,rfl,rfl⟩

/-- The second call is refused the lease, polls, and finds the product. -/
def polled : List (LeaseEvent Bool) :=
  [.getProduct {},.getProduct {},.redis 0 "a",.redis 1 "b",.redis 0 "",.redis 1 "",.resume 1,
    .redis 1 "",.advance 75,.database 0 true,.redis 0 "",.resume 1,.redis 1 "",.redis 0 ""]

/-- Both calls miss. The first one refills the cache and releases its lease, and only then does
the second one ask for the lease. -/
def staleMiss : List (LeaseEvent Bool) :=
  [.getProduct {},.getProduct {},.redis 0 "a",.redis 1 "b",.redis 0 "",.advance 75,
    .database 0 true,.redis 0 "",.redis 0 "",.redis 1 "",.advance 75,.database 1 false,.redis 1 "",
    .redis 1 ""]

end SystemsLab.Caching
