import SystemsLab.Caching.LeaseRefill

/-!
# The stages of a refill

As long as each lease is granted to a cold cache, there is one refill: the cache is cold, or one
call refills it under its lease, or it holds the one product that the database has returned.
-/

namespace SystemsLab.Caching

open Locks

variable {α : Type} {json : ProductJson α} {w w' : LeaseWorld α} {n : Nat} {c : LeaseCall α}

private theorem LeaseWorld.lockKey_ne_key (w : LeaseWorld α) : w.lockKey ≠ w.key := by
  intro h
  have hlength := congrArg String.length h
  rw [LeaseWorld.lockKey,String.length_append] at hlength
  have hprefix : ("lock:" : String).length = 5 := rfl
  omega

private theorem cached_of_none (h : w.redis.lookup w.clock w.key = none) :
    w.cached json = none := by
  rw [LeaseWorld.cached,Keyspace.get,h]
  rfl

private theorem cached_of_some {e : RedisEntry} {product : α}
    (h : w.redis.lookup w.clock w.key = some e) (he : e.value = .text (json.stringify product)) :
    w.cached json = some (.ok product) := by
  rw [LeaseWorld.cached,Keyspace.get,h,Option.map_some,he]
  show cachedProduct json (some (json.stringify product)) = _
  rw [cachedProduct,if_neg (json.stringify_ne product),json.parse_stringify]
  rfl

private theorem lookup_releaseIfOwner (redis : Keyspace) (now : Int) {lockKey key : String}
    (owner : String) (hne : key ≠ lockKey) :
    (releaseIfOwner redis now lockKey owner).lookup now key = redis.lookup now key := by
  unfold releaseIfOwner
  split
  · exact Keyspace.lookup_of_ne _ _ _ hne
  · rfl

/-- The call has neither a lease nor a result. -/
def LeasePhase.waiting : LeasePhase α → Bool
  | .getting _ => true
  | .acquiring _ _ => true
  | .refused _ => true
  | .polling _ _ => true
  | .sleeping _ _ _ => true
  | _ => false

/-- The steps of the runs in which nothing goes wrong. -/
inductive LeaseMove (json : ProductJson α) (w : LeaseWorld α) : LeaseWorld α → Prop
  | started (options : LeaseCacheOptions) : w.call w.started = none → 0 < options.leaseMs →
      0 < options.ttlSeconds → LeaseMove json w { w.put w.started ⟨options,.getting 1⟩ with
        started := w.started + 1 }
  | waited (n : Nat) (c : LeaseCall α) (phase : LeasePhase α) (owners : List String) :
      w.call n = some c → c.phase.waiting = true → phase.waiting = true →
      LeaseMove json w { w.put n { c with phase } with owners }
  | hit (n : Nat) (c : LeaseCall α) (outcome : Except LeaseError α) : w.call n = some c →
      c.phase.waiting = true → w.cached json = some outcome →
      LeaseMove json w (w.settle n c outcome)
  | granted (n : Nat) (c : LeaseCall α) (owner : String) : w.call n = some c →
      c.phase.waiting = true → w.redis.lookup w.clock w.lockKey = none →
      w.redis.lookup w.clock w.key = none →
      LeaseMove json w { w.put n { c with phase := .fetching owner } with
        redis := Function.update w.redis w.lockKey
          (some ⟨.text owner,some (w.clock + c.options.leaseMs)⟩)
        invocations := w.invocations + 1 }
  | fetched (n : Nat) (c : LeaseCall α) (owner : String) (product : α) : w.call n = some c →
      c.phase = .fetching owner →
      LeaseMove json w { w.put n { c with phase := .setting owner product } with
        produced := w.produced ++ [product] }
  | filled (n : Nat) (c : LeaseCall α) (owner : String) (product : α) : w.call n = some c →
      c.phase = .setting owner product →
      LeaseMove json w { w.put n { c with phase := .releasing owner (.ok product) } with
        redis := Function.update w.redis w.key (some ⟨.text (json.stringify product),
          some (w.clock + c.options.ttlSeconds * 1000)⟩) }
  | released (n : Nat) (c : LeaseCall α) (owner : String) (outcome : Except LeaseError α) :
      w.call n = some c → c.phase = .releasing owner outcome →
      LeaseMove json w { w.settle n c outcome with
        redis := releaseIfOwner w.redis w.clock w.lockKey owner }
  | ticked (ms : Nat) : (∀ n < w.started, ∀ owner ∈ w.refill n,
        w.redis.get (w.clock + ms) w.lockKey = some owner) →
      (∀ e ∈ w.redis.lookup w.clock w.key, e.expired (w.clock + ms) = false) →
      LeaseMove json w { w with clock := w.clock + ms }

/-- What the process of each call has been given. -/
def LeaseWorld.Known (w : LeaseWorld α) : Prop :=
  ∀ n c, w.call n = some c → n < w.started ∧ 0 < c.options.leaseMs ∧ 0 < c.options.ttlSeconds

theorem acquire_move {attempt : Nat} {owner : String} (hc : w.call n = some c)
    (hp : c.phase = .acquiring attempt owner) (hlease : 0 < c.options.leaseMs)
    (hunraced : w.races c = false) : LeaseMove json w (w.acquire n c attempt owner) := by
  have hwaiting : c.phase.waiting = true := by
    rw [hp]
    rfl
  unfold LeaseWorld.acquire
  split
  · rename_i error hset
    unfold Keyspace.setNxPx at hset
    rw [if_neg (by omega)] at hset
    split at hset <;> cases hset
  · rename_i redis hset
    obtain ⟨hnone,rfl⟩ := Keyspace.setNxPx_granted hset
    refine .granted n c owner hc hwaiting hnone ?_
    unfold LeaseWorld.races at hunraced
    rw [hp] at hunraced
    simpa [hnone] using hunraced
  · rename_i redis hset
    rw [Keyspace.setNxPx_refused hset]
    exact .waited n c _ w.owners hc hwaiting rfl

theorem fill_move {owner : String} {product : α} (hc : w.call n = some c)
    (hp : c.phase = .setting owner product) (httl : 0 < c.options.ttlSeconds) :
    LeaseMove json w (w.fill json n c owner product) := by
  unfold LeaseWorld.fill Keyspace.setEx
  rw [if_neg (by omega)]
  exact .filled n c owner product hc hp

theorem command_move {owner : String} (hc : w.call n = some c) (hknown : w.Known)
    (hunraced : w.races c = false) (h : w.command json n owner c = some w') :
    LeaseMove json w w' := by
  obtain ⟨_,hlease,httl⟩ := hknown n c hc
  unfold LeaseWorld.command at h
  split at h
  · rename_i attempt hp
    have hwaiting : c.phase.waiting = true := by
      rw [hp]
      rfl
    split at h
    · rename_i outcome hhit
      cases h
      exact .hit n c outcome hc hwaiting hhit
    · unfold LeaseWorld.miss at h
      split at h
      · cases h
      · cases h
        exact .waited n c _ _ hc hwaiting rfl
  · rename_i attempt owner hp
    cases h
    exact acquire_move hc hp hlease hunraced
  · rename_i owner product hp
    cases h
    exact fill_move hc hp httl
  · rename_i owner outcome hp
    cases h
    exact .released n c owner outcome hc hp
  · rename_i attempt deadline hp
    have hwaiting : c.phase.waiting = true := by
      rw [hp]
      rfl
    split at h
    · rename_i outcome hhit
      cases h
      exact .hit n c outcome hc hwaiting hhit
    · cases h
      exact .waited n c _ w.owners hc hwaiting rfl
  · cases h

theorem loopHead_move {attempt : Nat} {deadline : Int} (hc : w.call n = some c)
    (hwaiting : c.phase.waiting = true)
    (hattempts : deadline ≤ w.clock → attempt < c.options.maxAttempts) :
    LeaseMove json w (w.loopHead n c attempt deadline) := by
  unfold LeaseWorld.loopHead
  split
  · exact .waited n c _ w.owners hc hwaiting rfl
  · rename_i hover
    unfold LeaseWorld.afterPolling
    rw [if_neg (Int.not_le.mpr (hattempts (Int.not_lt.mp hover)))]
    exact .waited n c _ w.owners hc hwaiting rfl

theorem resume_move (hc : w.call n = some c) (hunraced : w.givesUp c = false)
    (h : w.resume n c = some w') : LeaseMove json w w' := by
  unfold LeaseWorld.resume at h
  unfold LeaseWorld.givesUp at hunraced
  split at h
  · rename_i attempt hp
    cases h
    rw [hp] at hunraced
    have hattempts := of_decide_eq_false hunraced
    refine loopHead_move hc (by rw [hp]; rfl) fun hover => ?_
    omega
  · rename_i attempt deadline wakeAt hp
    rw [hp] at hunraced
    have hattempts := of_decide_eq_false hunraced
    split at h
    · cases h
      refine loopHead_move hc (by rw [hp]; rfl) fun hover => ?_
      omega
    · cases h
  · cases h

theorem leaseStep_move {e : LeaseEvent α} (hknown : w.Known) (hsmooth : e.Smooth w)
    (hunraced : e.Unraced w) (h : leaseStep json w e = some w') : LeaseMove json w w' := by
  unfold leaseStep at h
  cases e with
  | getProduct options =>
    dsimp only at h
    split at h
    · cases h
    · rename_i hfree
      cases h
      exact .started options hfree hsmooth.1 hsmooth.2
  | redis n owner =>
    dsimp only at h
    split at h
    · rename_i c hc
      exact command_move hc hknown (hunraced c hc) h
    · cases h
  | database n product =>
    dsimp only at h
    split at h
    · rename_i options owner hc
      cases h
      exact .fetched n ⟨options,.fetching owner⟩ owner product hc rfl
    · cases h
  | resume n =>
    dsimp only at h
    split at h
    · rename_i c hc
      exact resume_move hc (hunraced c hc) h
    · cases h
  | fail n error => exact hsmooth.elim
  | advance ms =>
    cases h
    exact .ticked ms hsmooth.1 hsmooth.2

/-- In a cache that was filled with `product`, nobody has a refill to do. -/
def LeasePhase.Served (product : α) : LeasePhase α → Prop
  | .fetching _ => False
  | .setting _ _ => False
  | .releasing _ outcome => outcome = .ok product
  | .settled outcome => outcome = .ok product
  | _ => True

private theorem LeasePhase.Served.of_waiting {phase : LeasePhase α} (h : phase.waiting = true)
    (product : α) : phase.Served product := by
  cases phase with
  | fetching owner => cases h
  | setting owner p => cases h
  | releasing owner outcome => cases h
  | settled outcome => cases h
  | _ => trivial

/-- The one call that refills the cache, and what the database has replied to it. -/
inductive LeasePhase.Refills (owner : String) : List α → LeasePhase α → Prop
  | fetching : Refills owner [] (.fetching owner)
  | setting (product : α) : Refills owner [product] (.setting owner product)

private theorem LeasePhase.Refills.refill {owner : String} {produced : List α}
    {phase : LeasePhase α}
    (h : phase.Refills owner produced) : phase.refill = some owner := by
  cases h with
  | fetching => rfl
  | setting product => rfl

private theorem LeasePhase.Refills.not_waiting {owner : String} {produced : List α}
    {phase : LeasePhase α} (h : phase.Refills owner produced) : phase.waiting = false := by
  cases h with
  | fetching => rfl
  | setting product => rfl

inductive LeaseWorld.Stage (json : ProductJson α) (w : LeaseWorld α) : Prop
  | cold : w.redis.lookup w.clock w.key = none → w.redis.lookup w.clock w.lockKey = none →
      w.invocations = 0 → w.produced = [] →
      (∀ n c, w.call n = some c → c.phase.waiting = true) → Stage json w
  | refilling (n : Nat) (c : LeaseCall α) (owner : String) :
      w.redis.lookup w.clock w.key = none → w.redis.get w.clock w.lockKey = some owner →
      w.invocations = 1 → w.call n = some c → c.phase.Refills owner w.produced →
      (∀ m d, m ≠ n → w.call m = some d → d.phase.waiting = true) → Stage json w
  | filled (e : RedisEntry) (product : α) : w.redis.lookup w.clock w.key = some e →
      e.value = .text (json.stringify product) → w.invocations = 1 → w.produced = [product] →
      (∀ n c, w.call n = some c → c.phase.Served product) → Stage json w

namespace LeaseWorld.Stage

private theorem waited (h : w.Stage json) (hopen : ∀ d, w.call n = some d → d.phase.waiting = true)
    (hwaiting : c.phase.waiting = true) (hcall : w'.call = Function.update w.call n (some c))
    (hredis : w'.redis = w.redis) (hclock : w'.clock = w.clock)
    (hproduct : w'.productId = w.productId) (hinvocations : w'.invocations = w.invocations)
    (hproduced : w'.produced = w.produced) : w'.Stage json := by
  have hkey : w'.key = w.key := congrArg productCacheKey hproduct
  have hlock : w'.lockKey = w.lockKey := congrArg ("lock:" ++ ·) hkey
  cases h with
  | cold hentry hlease hinv hprod hall =>
    refine .cold ?_ ?_ (hinvocations.trans hinv) (hproduced.trans hprod) fun m d hd => ?_
    · rw [hredis,hclock,hkey]
      exact hentry
    · rw [hredis,hclock,hlock]
      exact hlease
    · rw [hcall] at hd
      rcases update_eq_some hd with ⟨rfl,rfl⟩ | ⟨_,hold⟩
      · exact hwaiting
      · exact hall m d hold
  | refilling m d owner hentry hlease hinv hd hrefills hall =>
    have hne : m ≠ n := by
      rintro rfl
      have hbusy := hrefills.not_waiting
      rw [hopen d hd] at hbusy
      cases hbusy
    refine .refilling m d owner ?_ ?_ (hinvocations.trans hinv) ?_ ?_ fun k b hk hb => ?_
    · rw [hredis,hclock,hkey]
      exact hentry
    · rw [hredis,hclock,hlock]
      exact hlease
    · rw [hcall,Function.update_of_ne hne]
      exact hd
    · rw [hproduced]
      exact hrefills
    · rw [hcall] at hb
      rcases update_eq_some hb with ⟨rfl,rfl⟩ | ⟨_,hold⟩
      · exact hwaiting
      · exact hall k b hk hold
  | filled e product hentry hvalue hinv hprod hall =>
    refine .filled e product ?_ hvalue (hinvocations.trans hinv) (hproduced.trans hprod)
      fun m d hd => ?_
    · rw [hredis,hclock,hkey]
      exact hentry
    · rw [hcall] at hd
      rcases update_eq_some hd with ⟨rfl,rfl⟩ | ⟨_,hold⟩
      · exact .of_waiting hwaiting product
      · exact hall m d hold

theorem of_served (h : w.Stage json) (hc : w.call n = some c) (hwaiting : c.phase.waiting = false)
    (hrefill : c.phase.refill = none) : ∃ e product, w.redis.lookup w.clock w.key = some e ∧
      e.value = .text (json.stringify product) ∧ w.invocations = 1 ∧ w.produced = [product] ∧
      ∀ m d, w.call m = some d → d.phase.Served product := by
  cases h with
  | cold hentry hlease hinv hprod hall =>
    rw [hall n c hc] at hwaiting
    cases hwaiting
  | refilling m d owner hentry hlease hinv hd hrefills hall =>
    by_cases hn : n = m
    · subst hn
      rw [hc] at hd
      cases hd
      rw [hrefills.refill] at hrefill
      cases hrefill
    · rw [hall n c hn hc] at hwaiting
      cases hwaiting
  | filled e product hentry hvalue hinv hprod hall =>
    exact ⟨e,product,hentry,hvalue,hinv,hprod,hall⟩

private theorem of_refill (h : w.Stage json) (hc : w.call n = some c) {owner : String}
    (hrefill : c.phase.refill = some owner) : w.redis.lookup w.clock w.key = none ∧
      w.redis.get w.clock w.lockKey = some owner ∧ w.invocations = 1 ∧
      c.phase.Refills owner w.produced ∧
      ∀ m d, m ≠ n → w.call m = some d → d.phase.waiting = true := by
  have hbusy : c.phase.waiting = false := by
    cases hp : c.phase with
    | fetching owner => rfl
    | setting owner product => rfl
    | _ =>
      rw [hp] at hrefill
      cases hrefill
  cases h with
  | cold hentry hlease hinv hprod hall =>
    rw [hall n c hc] at hbusy
    cases hbusy
  | refilling m d owner' hentry hlease hinv hd hrefills hall =>
    by_cases hn : n = m
    · subst hn
      rw [hc] at hd
      cases hd
      obtain rfl : owner' = owner := Option.some.inj (hrefills.refill.symm.trans hrefill)
      exact ⟨hentry,hlease,hinv,hrefills,hall⟩
    · rw [hall n c hn hc] at hbusy
      cases hbusy
  | filled e product hentry hvalue hinv hprod hall =>
    have hserved := hall n c hc
    cases hp : c.phase with
    | fetching owner =>
      rw [hp] at hserved
      exact hserved.elim
    | setting owner p =>
      rw [hp] at hserved
      exact hserved.elim
    | _ =>
      rw [hp] at hrefill
      cases hrefill

private theorem hit (h : w.Stage json) {outcome : Except LeaseError α}
    (hcached : w.cached json = some outcome) :
    (w.settle n c outcome).Stage json := by
  cases h with
  | cold hentry hlease hinv hprod hall =>
    rw [cached_of_none hentry] at hcached
    cases hcached
  | refilling m d owner hentry hlease hinv hd hrefills hall =>
    rw [cached_of_none hentry] at hcached
    cases hcached
  | filled e product hentry hvalue hinv hprod hall =>
    rw [cached_of_some hentry hvalue] at hcached
    refine .filled e product hentry hvalue hinv hprod fun m d hd => ?_
    rcases update_eq_some hd with ⟨rfl,rfl⟩ | ⟨_,hold⟩
    · exact (Option.some.inj hcached).symm
    · exact hall m d hold

private theorem granted (h : w.Stage json) {owner : String}
    (hlease : w.redis.lookup w.clock w.lockKey = none)
    (hentry : w.redis.lookup w.clock w.key = none) (hpositive : 0 < c.options.leaseMs) :
    LeaseWorld.Stage json { w.put n { c with phase := .fetching owner } with
      redis := Function.update w.redis w.lockKey
        (some ⟨.text owner,some (w.clock + c.options.leaseMs)⟩)
      invocations := w.invocations + 1 } := by
  have hlive : RedisEntry.expired ⟨.text owner,some (w.clock + c.options.leaseMs)⟩ w.clock = false :=
    expired_text.mpr (by omega)
  cases h with
  | cold _ _ hinv hprod hall =>
    refine .refilling n _ owner ?_ ?_ ?_ (Function.update_self _ _ _) ?_ fun m d hm hd => ?_
    · exact (Keyspace.lookup_of_ne _ _ _ w.lockKey_ne_key.symm).trans hentry
    · show Keyspace.get (Function.update w.redis w.lockKey _) w.clock w.lockKey = some owner
      rw [Keyspace.get,Keyspace.lookup_update _ hlive]
      rfl
    · exact congrArg (· + 1) hinv
    · show LeasePhase.Refills owner w.produced (.fetching owner)
      rw [hprod]
      exact .fetching
    · rcases update_eq_some hd with ⟨rfl,_⟩ | ⟨_,hold⟩
      · exact absurd rfl hm
      · exact hall m d hold
  | refilling m d owner' _ hheld hinv hd hrefills hall =>
    rw [Keyspace.get,hlease] at hheld
    cases hheld
  | filled e product hfilled hvalue hinv hprod hall =>
    rw [hentry] at hfilled
    cases hfilled

private theorem fetched (h : w.Stage json) {owner : String} {product : α} (hc : w.call n = some c)
    (hp : c.phase = .fetching owner) :
    LeaseWorld.Stage json { w.put n { c with phase := .setting owner product } with
      produced := w.produced ++ [product] } := by
  have hrefill : c.phase.refill = some owner := by
    rw [hp]
    rfl
  obtain ⟨hentry,hlease,hinv,hrefills,hall⟩ := h.of_refill hc hrefill
  have hnothing : w.produced = [] := by
    rw [hp] at hrefills
    generalize w.produced = produced at hrefills
    cases hrefills
    rfl
  refine .refilling n _ owner hentry hlease hinv (Function.update_self _ _ _) ?_ fun m d hm hd => ?_
  · show LeasePhase.Refills owner (w.produced ++ [product]) (.setting owner product)
    rw [hnothing]
    exact .setting product
  · rcases update_eq_some hd with ⟨rfl,_⟩ | ⟨_,hold⟩
    · exact absurd rfl hm
    · exact hall m d hm hold

private theorem filledBy (h : w.Stage json) {owner : String} {product : α} (hc : w.call n = some c)
    (hp : c.phase = .setting owner product) (hpositive : 0 < c.options.ttlSeconds) :
    LeaseWorld.Stage json { w.put n { c with phase := .releasing owner (.ok product) } with
      redis := Function.update w.redis w.key (some ⟨.text (json.stringify product),
        some (w.clock + c.options.ttlSeconds * 1000)⟩) } := by
  have hrefill : c.phase.refill = some owner := by
    rw [hp]
    rfl
  obtain ⟨_,_,hinv,hrefills,hall⟩ := h.of_refill hc hrefill
  have hproduced : w.produced = [product] := by
    rw [hp] at hrefills
    generalize w.produced = produced at hrefills
    cases hrefills
    rfl
  refine .filled _ product (Keyspace.lookup_update _ ?_) rfl hinv hproduced fun m d hd => ?_
  · have hlater : w.clock < w.clock + c.options.ttlSeconds * 1000 := by omega
    exact expired_text.mpr hlater
  · rcases update_eq_some hd with ⟨rfl,rfl⟩ | ⟨hm,hold⟩
    · rfl
    · exact .of_waiting (hall m d hm hold) product

private theorem released (h : w.Stage json) {owner : String} {outcome : Except LeaseError α}
    (hc : w.call n = some c) (hp : c.phase = .releasing owner outcome) :
    LeaseWorld.Stage json { w.settle n c outcome with
      redis := releaseIfOwner w.redis w.clock w.lockKey owner } := by
  obtain ⟨e,product,hentry,hvalue,hinv,hprod,hall⟩ :=
    h.of_served hc (by rw [hp]; rfl) (by rw [hp]; rfl)
  have hserved := hall n c hc
  rw [hp] at hserved
  refine .filled e product ?_ hvalue hinv hprod fun m d hd => ?_
  · exact (lookup_releaseIfOwner _ _ _ w.lockKey_ne_key.symm).trans hentry
  · rcases update_eq_some hd with ⟨rfl,rfl⟩ | ⟨_,hold⟩
    · exact hserved
    · exact hall m d hold

private theorem ticked (h : w.Stage json) (hknown : w.Known) (ms : Nat)
    (hrefill : ∀ n < w.started, ∀ owner ∈ w.refill n,
      w.redis.get (w.clock + ms) w.lockKey = some owner)
    (hentry : ∀ e ∈ w.redis.lookup w.clock w.key, e.expired (w.clock + ms) = false) :
    LeaseWorld.Stage json { w with clock := w.clock + ms } := by
  have hle : w.clock ≤ w.clock + ms := by omega
  cases h with
  | cold hnone hlease hinv hprod hall =>
    exact .cold (Keyspace.lookup_none_of_le hle hnone) (Keyspace.lookup_none_of_le hle hlease) hinv
      hprod hall
  | refilling m d owner hnone hlease hinv hd hrefills hall =>
    refine .refilling m d owner (Keyspace.lookup_none_of_le hle hnone) ?_ hinv hd hrefills hall
    refine hrefill m (hknown m d hd).1 owner ?_
    rw [LeaseWorld.refill,hd]
    exact hrefills.refill
  | filled e product hfilled hvalue hinv hprod hall =>
    refine .filled e product ?_ hvalue hinv hprod hall
    exact Keyspace.lookup_eq_some.mpr ⟨(Keyspace.lookup_eq_some.mp hfilled).1,hentry e hfilled⟩

end LeaseWorld.Stage

structure LeaseWorld.Sound (json : ProductJson α) (w : LeaseWorld α) : Prop where
  known : w.Known
  stage : w.Stage json

namespace LeaseWorld.Sound

theorem start (h : w.Cold) : w.Sound json := by
  refine ⟨fun n c hc => ?_,.cold h.entry h.lease h.invocations h.produced fun n c hc => ?_⟩
  · rw [h.calls] at hc
    cases hc
  · rw [h.calls] at hc
    cases hc

private theorem known_update (h : w.Known) {phase : LeasePhase α} (hc : w.call n = some c)
    (hcall : w'.call = Function.update w.call n (some { c with phase }))
    (hstarted : w'.started = w.started) : w'.Known := by
  intro m d hd
  rw [hcall] at hd
  rw [hstarted]
  rcases update_eq_some hd with ⟨rfl,rfl⟩ | ⟨_,hold⟩
  · exact h m c hc
  · exact h m d hold

theorem move (h : w.Sound json) (hm : LeaseMove json w w') : w'.Sound json := by
  cases hm with
  | started options hfree hlease httl =>
    have hopen : ∀ d, w.call w.started = some d → d.phase.waiting = true := by
      intro d hd
      rw [hfree] at hd
      cases hd
    refine ⟨fun m d hd => ?_,h.stage.waited hopen rfl rfl rfl rfl rfl rfl rfl⟩
    rcases update_eq_some hd with ⟨rfl,rfl⟩ | ⟨_,hold⟩
    · exact ⟨Nat.lt_succ_self _,hlease,httl⟩
    · exact ⟨Nat.lt_succ_of_lt (h.known m d hold).1,(h.known m d hold).2⟩
  | waited n c phase owners hc hwaiting hwaiting' =>
    exact ⟨known_update h.known hc rfl rfl,
      h.stage.waited (forall_of_eq_some hc hwaiting) hwaiting' rfl rfl rfl rfl rfl rfl⟩
  | hit n c outcome hc hwaiting hcached =>
    exact ⟨known_update h.known hc rfl rfl,h.stage.hit hcached⟩
  | granted n c owner hc hwaiting hlease hentry =>
    exact ⟨known_update h.known hc rfl rfl,
      h.stage.granted hlease hentry (h.known n c hc).2.1⟩
  | fetched n c owner product hc hp =>
    exact ⟨known_update h.known hc rfl rfl,h.stage.fetched hc hp⟩
  | filled n c owner product hc hp =>
    exact ⟨known_update h.known hc rfl rfl,h.stage.filledBy hc hp (h.known n c hc).2.2⟩
  | released n c owner outcome hc hp =>
    exact ⟨known_update h.known hc rfl rfl,h.stage.released hc hp⟩
  | ticked ms hrefill hentry => exact ⟨h.known,h.stage.ticked h.known ms hrefill hentry⟩

end LeaseWorld.Sound

end SystemsLab.Caching
