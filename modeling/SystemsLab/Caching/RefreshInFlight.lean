import SystemsLab.Caching.StaleWhileRevalidate

/-!
# One refresh per key

A key is in `refreshInFlight` from the stale hit that starts a refresh to the end of its `finally`
block.
-/

namespace SystemsLab.Caching

open Locks

variable {α : Type} {options : RevalidateOptions} {json : ProductJson (CacheEntry α)}
  {w t : RevalidateWorld α} {e : RevalidateEvent α} {n f : Nat} {c : Fill α}

/-- The steps, with the branch that they take. -/
inductive RevalidateMove (options : RevalidateOptions) (json : ProductJson (CacheEntry α))
    (w : RevalidateWorld α) : RevalidateEvent α → RevalidateWorld α → Prop
  | called (productId : Int) : RevalidateMove options json w (.getProduct productId)
      { w.putCall w.calls { productId } with calls := w.calls + 1 }
  | answered {n : Nat} {productId : Int} : w.call n = some ⟨productId,.getting⟩ →
      RevalidateMove options json w (.redisGet n) (w.putCall n
        ⟨productId,.answered (w.redis.get w.clock (productCacheKey productId)) w.clock⟩)
  | missed {n : Nat} {productId : Int} {raw : Option String} {answeredAt : Int} :
      w.call n = some ⟨productId,.answered raw answeredAt⟩ →
      RevalidateWorld.parseRaw json raw = none → RevalidateMove options json w (.reply n)
        ((w.startFill productId (some n)).putCall n ⟨productId,.filling⟩)
  | unreadable {n : Nat} {productId : Int} {raw : Option String} {answeredAt : Int}
      {error : String} : w.call n = some ⟨productId,.answered raw answeredAt⟩ →
      RevalidateWorld.parseRaw json raw = some (.error error) →
      RevalidateMove options json w (.reply n) (w.putCall n ⟨productId,.settled (.error error)⟩)
  | served {n : Nat} {productId : Int} {raw : Option String} {answeredAt : Int}
      {entry : CacheEntry α} : w.call n = some ⟨productId,.answered raw answeredAt⟩ →
      RevalidateWorld.parseRaw json raw = some (.ok entry) →
      (w.clock < entry.freshUntil ∨ productCacheKey productId ∈ w.refreshInFlight) →
      RevalidateMove options json w (.reply n) (w.serve n productId entry.product answeredAt)
  | refreshed {n : Nat} {productId : Int} {raw : Option String} {answeredAt : Int}
      {entry : CacheEntry α} : w.call n = some ⟨productId,.answered raw answeredAt⟩ →
      RevalidateWorld.parseRaw json raw = some (.ok entry) → entry.freshUntil ≤ w.clock →
      productCacheKey productId ∉ w.refreshInFlight → RevalidateMove options json w (.reply n)
        ({ w.startFill productId none with
            refreshInFlight := insert (productCacheKey productId) w.refreshInFlight }.serve n
          productId entry.product answeredAt)
  | rejected {n : Nat} {d : Lookup α} {error : String} : w.call n = some d →
      RevalidateMove options json w (.rejectGet n error)
        (w.putCall n ⟨d.productId,.settled (.error error)⟩)
  | queried {f : Nat} {c : Fill α} {product : α} : w.fill f = some c → c.phase = .querying →
      RevalidateMove options json w (.read f product)
        { w.putFill f { c with phase := .queried product } with
          reads := w.reads ++ [⟨c.productId,product,w.clock⟩] }
  | fetched {f : Nat} {c : Fill α} {product : α} : w.fill f = some c →
      c.phase = .queried product → RevalidateMove options json w (.fetched f)
        (w.putFill f ⟨c.productId,c.call,c.startedAt,
          .setting product (json.stringify ⟨product,w.clock + options.freshMs⟩)⟩)
  | refused {f : Nat} {c : Fill α} {product : α} {entry error : String} : w.fill f = some c →
      c.phase.command = some (product,entry) → RevalidateMove options json w (.redisSet f)
        (w.putFill f { c with phase := .settled (.error error) })
  | set {f : Nat} {c : Fill α} {product : α} {entry : String} : w.fill f = some c →
      c.phase.command = some (product,entry) → RevalidateMove options json w (.redisSet f)
        { w.putFill f { c with phase := .stored product entry } with
          redis := Function.update w.redis (productCacheKey c.productId)
            (some ⟨.text entry,some (w.clock + options.staleMs)⟩) }
  | acknowledged {f : Nat} {c : Fill α} {product : α} {entry : String} : w.fill f = some c →
      c.phase = .stored product entry → RevalidateMove options json w (.acknowledged f)
        (w.putFill f { c with phase := .settled (.ok product) })
  | failed {f : Nat} {c : Fill α} {error : String} : w.fill f = some c →
      c.phase.waiting = true → RevalidateMove options json w (.rejectFill f error)
        (w.putFill f { c with phase := .settled (.error error) })
  | finished {f : Nat} {c : Fill α} {outcome : Except String α} : w.fill f = some c →
      c.phase = .settled outcome → RevalidateMove options json w (.finish f)
        (w.finish f c outcome)
  | advanced (ms : Nat) : RevalidateMove options json w (.advance ms)
      { w with clock := w.clock + ms }

theorem afterGet_move {productId : Int} {raw : Option String} {answeredAt : Int}
    (hn : w.call n = some ⟨productId,.answered raw answeredAt⟩) :
    RevalidateMove options json w (.reply n) (w.afterGet json n productId raw answeredAt) := by
  unfold RevalidateWorld.afterGet
  split
  · rename_i hraw
    exact .missed hn hraw
  · rename_i error hraw
    exact .unreadable hn hraw
  · rename_i entry hraw
    split
    · rename_i hfresh
      exact .served hn hraw (.inl hfresh)
    · rename_i hstale
      unfold RevalidateWorld.triggerBackgroundRefresh
      dsimp only
      split
      · rename_i hkey
        exact .served hn hraw (.inr hkey)
      · rename_i hkey
        exact .refreshed hn hraw (Int.not_lt.mp hstale) hkey

theorem set_move {product : α} {entry : String} (hf : w.fill f = some c)
    (hcommand : c.phase.command = some (product,entry)) :
    RevalidateMove options json w (.redisSet f) (w.set options f c product entry) := by
  unfold RevalidateWorld.set Keyspace.setPx
  split
  · exact .refused hf hcommand
  · rename_i redis hset
    split at hset
    · cases hset
    · cases hset
      exact .set hf hcommand

theorem revalidateStep_move (h : revalidateStep options json w e = some t) :
    RevalidateMove options json w e t := by
  cases e with
  | getProduct productId =>
    cases h
    exact .called productId
  | redisGet n =>
    simp only [revalidateStep] at h
    split at h
    · rename_i productId hn
      cases h
      exact .answered hn
    · cases h
  | reply n =>
    simp only [revalidateStep] at h
    split at h
    · rename_i productId raw answeredAt hn
      cases h
      exact afterGet_move hn
    · cases h
  | rejectGet n error =>
    simp only [revalidateStep] at h
    split at h
    · rename_i productId hn
      cases h
      exact .rejected hn
    · rename_i productId raw answeredAt hn
      cases h
      exact .rejected hn
    · cases h
  | read f product =>
    simp only [revalidateStep] at h
    split at h
    · rename_i productId call startedAt hf
      cases h
      exact .queried hf rfl
    · cases h
  | fetched f =>
    simp only [revalidateStep] at h
    split at h
    · rename_i productId call startedAt product hf
      cases h
      exact .fetched hf rfl
    · cases h
  | redisSet f =>
    obtain ⟨c,hf,h⟩ := Option.bind_eq_some_iff.mp h
    obtain ⟨⟨product,entry⟩,hcommand,h⟩ := Option.bind_eq_some_iff.mp h
    cases h
    exact set_move hf hcommand
  | acknowledged f =>
    simp only [revalidateStep] at h
    split at h
    · rename_i productId call startedAt product entry hf
      cases h
      exact .acknowledged hf rfl
    · cases h
  | rejectFill f error =>
    obtain ⟨c,hf,h⟩ := Option.bind_eq_some_iff.mp h
    split at h
    · rename_i hwaiting
      cases h
      exact .failed hf hwaiting
    · cases h
  | finish f =>
    simp only [revalidateStep] at h
    split at h
    · rename_i productId call startedAt outcome hf
      cases h
      exact .finished hf rfl
    · cases h
  | advance ms =>
    cases h
    exact .advanced ms

def FillPhase.over : FillPhase α → Bool
  | .done => true
  | _ => false

/-- The fill is a refresh of `key` in the background, and its `finally` block has not run. -/
def Fill.Refreshes (c : Fill α) (key : String) : Prop :=
  c.call = none ∧ productCacheKey c.productId = key ∧ c.phase.over = false

def RevalidateWorld.Refreshing (w : RevalidateWorld α) (key : String) (f : Nat) : Prop :=
  ∃ c, w.fill f = some c ∧ c.Refreshes key

structure RevalidateWorld.Deduplicated (w : RevalidateWorld α) : Prop where
  fresh : ∀ f, w.fills ≤ f → w.fill f = none
  once : ∀ key f g, w.Refreshing key f → w.Refreshing key g → f = g
  inFlight : ∀ key, key ∈ w.refreshInFlight ↔ ∃ f, w.Refreshing key f

private theorem over_of_waiting {phase : FillPhase α} (h : phase.waiting = true) :
    phase.over = false := by
  cases phase <;> first | rfl | cases h

private theorem waiting_of_command {phase : FillPhase α} {sent : α × String}
    (h : phase.command = some sent) : phase.waiting = true := by
  cases phase <;> first | rfl | cases h

theorem command_of_settled {phase : FillPhase α} (h : phase.waiting = false) :
    phase.command = none := by
  cases phase <;> first | rfl | cases h

namespace RevalidateWorld

private theorem refreshing_putFill {key : String} {g : Nat} :
    (w.putFill f c).Refreshing key g ↔
      g = f ∧ c.Refreshes key ∨ g ≠ f ∧ w.Refreshing key g := by
  constructor
  · rintro ⟨d,hd,hrefreshes⟩
    rcases update_eq_some hd with ⟨hg,rfl⟩ | ⟨hg,hold⟩
    · exact .inl ⟨hg,hrefreshes⟩
    · exact .inr ⟨hg,d,hold,hrefreshes⟩
  · rintro (⟨rfl,hrefreshes⟩ | ⟨hg,d,hd,hrefreshes⟩)
    · exact ⟨c,Function.update_self _ _ _,hrefreshes⟩
    · exact ⟨d,(Function.update_of_ne hg _ _).trans hd,hrefreshes⟩

namespace Deduplicated

private theorem same (h : w.Deduplicated) (hfresh : ∀ g, t.fills ≤ g → t.fill g = none)
    (hset : t.refreshInFlight = w.refreshInFlight)
    (hrefreshing : ∀ key g, t.Refreshing key g ↔ w.Refreshing key g) : t.Deduplicated := by
  refine ⟨hfresh,?_,?_⟩
  · intro key g g' hg hg'
    exact h.once key g g' ((hrefreshing key g).mp hg) ((hrefreshing key g').mp hg')
  · intro key
    simp only [hset,hrefreshing]
    exact h.inFlight key

private theorem lt_fills (h : w.Deduplicated) (hf : w.fill f = some c) : f < w.fills := by
  by_contra hge
  rw [h.fresh f (Nat.not_lt.mp hge)] at hf
  cases hf

private theorem fresh_putFill (h : w.Deduplicated) (hf : w.fill f = some c) (d : Fill α) :
    ∀ g, w.fills ≤ g → (w.putFill f d).fill g = none := by
  intro g hg
  have hlt := h.lt_fills hf
  exact (Function.update_of_ne (by omega) _ _).trans (h.fresh g hg)

private theorem fresh_startFill (h : w.Deduplicated) (productId : Int) (call : Option Nat) :
    ∀ g, w.fills + 1 ≤ g → (w.startFill productId call).fill g = none := by
  intro g hg
  exact (Function.update_of_ne (by omega) _ _).trans (h.fresh g (by omega))

theorem next (h : w.Deduplicated) (hf : w.fill f = some c) (hc : c.phase.over = false)
    (phase : FillPhase α) (hphase : phase.over = false) :
    (w.putFill f { c with phase }).Deduplicated := by
  refine h.same (h.fresh_putFill hf _) rfl fun key g => refreshing_putFill.trans ?_
  have hsame : ({ c with phase } : Fill α).Refreshes key ↔ w.Refreshing key f := by
    constructor
    · rintro ⟨hcall,hkey,_⟩
      exact ⟨c,hf,hcall,hkey,hc⟩
    · rintro ⟨d,hd,hcall,hkey,_⟩
      rw [hf] at hd
      cases hd
      exact ⟨hcall,hkey,hphase⟩
  rw [hsame]
  by_cases hg : g = f <;> simp [hg]

private theorem not_refreshing_new (h : w.Deduplicated) (key : String) :
    ¬ w.Refreshing key w.fills := by
  rintro ⟨c,hc,_⟩
  rw [h.fresh w.fills (Nat.le_refl _)] at hc
  cases hc

private theorem startFill (h : w.Deduplicated) (productId : Int) (n : Nat) :
    (w.startFill productId (some n)).Deduplicated := by
  refine h.same (h.fresh_startFill productId _) rfl fun key g => refreshing_putFill.trans ?_
  constructor
  · rintro (⟨_,hcall,_⟩ | ⟨_,hg⟩)
    · cases hcall
    · exact hg
  · intro hg
    refine .inr ⟨?_,hg⟩
    rintro rfl
    exact h.not_refreshing_new key hg

private theorem refresh (h : w.Deduplicated) {productId : Int}
    (hkey : productCacheKey productId ∉ w.refreshInFlight) :
    Deduplicated { w.startFill productId none with
      refreshInFlight := insert (productCacheKey productId) w.refreshInFlight } := by
  have hnone : ∀ g, ¬ w.Refreshing (productCacheKey productId) g :=
    fun g hg => hkey ((h.inFlight _).mpr ⟨g,hg⟩)
  have hrefreshing : ∀ key g, (w.startFill productId none).Refreshing key g ↔
      g = w.fills ∧ productCacheKey productId = key ∨ w.Refreshing key g := by
    intro key g
    have hnew := h.not_refreshing_new key
    refine refreshing_putFill.trans (or_congr ?_ ⟨And.right,fun hg => ⟨?_,hg⟩⟩)
    · exact and_congr_right fun _ => ⟨fun hr => hr.2.1,fun heq => ⟨rfl,heq,rfl⟩⟩
    · rintro rfl
      exact hnew hg
  refine ⟨h.fresh_startFill productId none,?_,?_⟩
  · intro key g g' hg hg'
    rcases (hrefreshing key g).mp hg with ⟨rfl,rfl⟩ | hold
    · rcases (hrefreshing _ g').mp hg' with ⟨rfl,_⟩ | hold'
      · rfl
      · exact absurd hold' (hnone g')
    · rcases (hrefreshing key g').mp hg' with ⟨rfl,rfl⟩ | hold'
      · exact absurd hold (hnone g)
      · exact h.once key g g' hold hold'
  · intro key
    show key ∈ insert (productCacheKey productId) w.refreshInFlight ↔
      ∃ g, (w.startFill productId none).Refreshing key g
    simp only [hrefreshing,exists_or,exists_eq_left,Finset.mem_insert,h.inFlight,eq_comm]

private theorem refreshing_over {key : String} {g : Nat} :
    (w.putFill f { c with phase := .done }).Refreshing key g ↔ g ≠ f ∧ w.Refreshing key g := by
  have hover : ¬ ({ c with phase := .done } : Fill α).Refreshes key :=
    fun hrefreshes => Bool.noConfusion hrefreshes.2.2
  rw [refreshing_putFill]
  simp [hover]

private theorem finish_refresh (h : w.Deduplicated) (hf : w.fill f = some c) (hcall : c.call = none)
    (hc : c.phase.over = false) : Deduplicated { w.putFill f { c with phase := .done } with
      refreshInFlight := w.refreshInFlight.erase (productCacheKey c.productId) } := by
  have hold : w.Refreshing (productCacheKey c.productId) f := ⟨c,hf,hcall,rfl,hc⟩
  have honly : ∀ key, w.Refreshing key f → key = productCacheKey c.productId := by
    rintro key ⟨d,hd,_,hkey,_⟩
    rw [hf] at hd
    cases hd
    exact hkey.symm
  refine ⟨h.fresh_putFill hf _,?_,?_⟩
  · intro key g g' hg hg'
    exact h.once key g g' (refreshing_over.mp hg).2 (refreshing_over.mp hg').2
  · intro key
    rw [Finset.mem_erase,h.inFlight]
    constructor
    · rintro ⟨hne,g,hg⟩
      refine ⟨g,refreshing_over.mpr ⟨?_,hg⟩⟩
      rintro rfl
      exact hne (honly key hg)
    · rintro ⟨g,hg⟩
      obtain ⟨hne,hg⟩ := refreshing_over.mp hg
      refine ⟨?_,g,hg⟩
      rintro rfl
      exact hne (h.once _ g f hg hold)

private theorem finish_fill (h : w.Deduplicated) (hf : w.fill f = some c) (hcall : c.call ≠ none) :
    (w.putFill f { c with phase := .done }).Deduplicated := by
  refine h.same (h.fresh_putFill hf _) rfl fun key g => refreshing_over.trans ?_
  refine ⟨And.right,fun hg => ⟨?_,hg⟩⟩
  rintro rfl
  obtain ⟨d,hd,hnone,_⟩ := hg
  rw [hf] at hd
  cases hd
  exact hcall hnone

private theorem finish (h : w.Deduplicated) (hf : w.fill f = some c) (hc : c.phase.over = false)
    (outcome : Except String α) : (w.finish f c outcome).Deduplicated := by
  obtain ⟨productId,call,startedAt,phase⟩ := c
  cases call with
  | none => exact h.finish_refresh hf rfl hc
  | some n =>
    have hover := h.finish_fill hf (Option.some_ne_none n)
    exact ⟨hover.fresh,hover.once,hover.inFlight⟩

theorem move (h : w.Deduplicated) (hmove : RevalidateMove options json w e t) :
    t.Deduplicated := by
  cases hmove with
  | called productId => exact ⟨h.fresh,h.once,h.inFlight⟩
  | answered hn => exact ⟨h.fresh,h.once,h.inFlight⟩
  | @missed n productId raw answeredAt hn hraw =>
    have hstart := h.startFill productId n
    exact ⟨hstart.fresh,hstart.once,hstart.inFlight⟩
  | unreadable hn hraw => exact ⟨h.fresh,h.once,h.inFlight⟩
  | served hn hraw hfresh => exact ⟨h.fresh,h.once,h.inFlight⟩
  | refreshed hn hraw hstale hkey =>
    have hrefresh := h.refresh hkey
    exact ⟨hrefresh.fresh,hrefresh.once,hrefresh.inFlight⟩
  | rejected hn => exact ⟨h.fresh,h.once,h.inFlight⟩
  | @queried f c product hf hphase =>
    have hnext := h.next hf (by rw [hphase]; rfl) (.queried product) rfl
    exact ⟨hnext.fresh,hnext.once,hnext.inFlight⟩
  | fetched hf hphase => exact h.next hf (by rw [hphase]; rfl) _ rfl
  | refused hf hcommand => exact h.next hf (over_of_waiting (waiting_of_command hcommand)) _ rfl
  | @set f c product entry hf hcommand =>
    have hc := over_of_waiting (waiting_of_command hcommand)
    have hnext := h.next hf hc (.stored product entry) rfl
    exact ⟨hnext.fresh,hnext.once,hnext.inFlight⟩
  | acknowledged hf hphase => exact h.next hf (by rw [hphase]; rfl) _ rfl
  | failed hf hwaiting => exact h.next hf (over_of_waiting hwaiting) _ rfl
  | finished hf hphase => exact h.finish hf (by rw [hphase]; rfl) _
  | advanced ms => exact ⟨h.fresh,h.once,h.inFlight⟩

end Deduplicated

end RevalidateWorld

/-- The key of which the call `n` is about to get a stale entry. -/
def RevalidateWorld.staleHit (json : ProductJson (CacheEntry α)) (w : RevalidateWorld α)
    (n : Nat) : Option String :=
  match w.call n with
  | some ⟨productId,.answered raw _⟩ =>
    match parseRaw json raw with
    | some (.ok entry) =>
      if w.clock < entry.freshUntil then none else some (productCacheKey productId)
    | _ => none
  | _ => none

/-- The event is no stale hit of `key`. -/
def RevalidateEvent.Spares (json : ProductJson (CacheEntry α)) (key : String)
    (w : RevalidateWorld α) : RevalidateEvent α → Prop
  | .reply n => w.staleHit json n ≠ some key
  | _ => True

/-- The next stale hit of `key` starts a refresh. -/
def RevalidateWorld.Restarts (options : RevalidateOptions) (json : ProductJson (CacheEntry α))
    (w : RevalidateWorld α) (key : String) : Prop :=
  ∀ es t n, run (revalidateStep options json) w es = some t →
    Along (revalidateStep options json) (RevalidateEvent.Spares json key) w es →
    t.staleHit json n = some key →
    ∃ u f, revalidateStep options json t (.reply n) = some u ∧ t.fill f = none ∧
      u.Refreshing key f

/-- What the background refreshes of one cache may be relied on for. A refresh that fails has
changed the entry only if Redis has executed its `SET` before. -/
structure RevalidateWorld.Revalidating (options : RevalidateOptions)
    (json : ProductJson (CacheEntry α)) (w : RevalidateWorld α) : Prop where
  once : ∀ key f g, w.Refreshing key f → w.Refreshing key g → f = g
  inFlight : ∀ key, key ∈ w.refreshInFlight ↔ ∃ f, w.Refreshing key f
  changed : ∀ e t, revalidateStep options json w e = some t → t.redis ≠ w.redis →
    ∃ f c, e = .redisSet f ∧ w.fill f = some c ∧ c.phase.command ≠ none
  failed : ∀ f c error, w.fill f = some c → c.call = none → c.phase = .settled (.error error) →
    (∀ es t, run (revalidateStep options json) w es = some t → .redisSet f ∉ es) ∧
      ∃ t, revalidateStep options json w (.finish f) = some t ∧ t.redis = w.redis ∧
        productCacheKey c.productId ∉ t.refreshInFlight ∧
          t.Restarts options json (productCacheKey c.productId)

namespace RevalidateWorld.Deduplicated

theorem step (h : w.Deduplicated) (hstep : revalidateStep options json w e = some t) :
    t.Deduplicated :=
  h.move (revalidateStep_move hstep)

theorem settled_step (h : w.Deduplicated) (hf : w.fill f = some c) (hc : c.phase.waiting = false)
    (hstep : revalidateStep options json w e = some t) :
    ∃ d, t.fill f = some d ∧ d.phase.waiting = false := by
  have hstart : ∀ d, Function.update w.fill w.fills (some d) f = some c :=
    fun d => update_of_some (h.fresh _ (Nat.le_refl _)) hf
  have hother : ∀ g d d', w.fill g = some d → d.phase.waiting = true →
      Function.update w.fill g (some d') f = some c := by
    intro g d d' hg hd
    rw [Function.update_of_ne]
    · exact hf
    · rintro rfl
      rw [hf] at hg
      cases hg
      rw [hc] at hd
      cases hd
  cases revalidateStep_move hstep with
  | called productId => exact ⟨c,hf,hc⟩
  | answered hn => exact ⟨c,hf,hc⟩
  | missed hn hraw => exact ⟨c,hstart _,hc⟩
  | unreadable hn hraw => exact ⟨c,hf,hc⟩
  | served hn hraw hfresh => exact ⟨c,hf,hc⟩
  | refreshed hn hraw hstale hkey => exact ⟨c,hstart _,hc⟩
  | rejected hn => exact ⟨c,hf,hc⟩
  | queried hg hphase => exact ⟨c,hother _ _ _ hg (by rw [hphase]; rfl),hc⟩
  | fetched hg hphase => exact ⟨c,hother _ _ _ hg (by rw [hphase]; rfl),hc⟩
  | refused hg hcommand => exact ⟨c,hother _ _ _ hg (waiting_of_command hcommand),hc⟩
  | set hg hcommand => exact ⟨c,hother _ _ _ hg (waiting_of_command hcommand),hc⟩
  | acknowledged hg hphase => exact ⟨c,hother _ _ _ hg (by rw [hphase]; rfl),hc⟩
  | failed hg hwaiting => exact ⟨c,hother _ _ _ hg hwaiting,hc⟩
  | @finished g d outcome hg hphase =>
    have hfill : (w.finish g d outcome).fill =
        Function.update w.fill g (some { d with phase := .done }) := by
      unfold RevalidateWorld.finish
      dsimp only
      split <;> rfl
    rw [hfill]
    by_cases hfg : f = g
    · subst hfg
      exact ⟨_,Function.update_self _ _ _,rfl⟩
    · exact ⟨c,(Function.update_of_ne hfg _ _).trans hf,hc⟩
  | advanced ms => exact ⟨c,hf,hc⟩

private theorem settled_silent (h : w.Deduplicated) (hf : w.fill f = some c)
    (hc : c.phase.waiting = false) {es : List (RevalidateEvent α)}
    (hrun : run (revalidateStep options json) w es = some t) : .redisSet f ∉ es := by
  induction es generalizing w c with
  | nil => exact List.not_mem_nil
  | cons e es ih =>
    obtain ⟨m,hm,hrest⟩ := run_cons_some hrun
    obtain ⟨d,hd,hdc⟩ := h.settled_step hf hc hm
    rw [List.mem_cons,not_or]
    refine ⟨?_,ih (h.step hm) hd hdc hrest⟩
    rintro rfl
    have hcommand := command_of_settled hc
    simp [revalidateStep,hf,hcommand] at hm

end RevalidateWorld.Deduplicated

/-- Only a stale hit of a key makes it busy. -/
theorem free_step {key : String} (hfree : key ∉ w.refreshInFlight) (hspares : e.Spares json key w)
    (hstep : revalidateStep options json w e = some t) : key ∉ t.refreshInFlight := by
  cases revalidateStep_move hstep with
  | @refreshed n productId raw answeredAt entry hn hraw hstale hkey =>
    have hhit : w.staleHit json n = some (productCacheKey productId) := by
      simp only [RevalidateWorld.staleHit,hn,hraw,if_neg (Int.not_lt.mpr hstale)]
    show key ∉ insert (productCacheKey productId) w.refreshInFlight
    rw [Finset.mem_insert,not_or]
    refine ⟨?_,hfree⟩
    rintro rfl
    exact hspares hhit
  | @finished f c outcome hf hphase =>
    unfold RevalidateWorld.finish
    dsimp only
    split
    · exact fun hmem => hfree (Finset.mem_of_mem_erase hmem)
    · exact hfree
  | _ => exact hfree

private theorem stale_refresh {key : String} (h : w.Deduplicated) (hfree : key ∉ w.refreshInFlight)
    (hhit : w.staleHit json n = some key) :
    ∃ t f, revalidateStep options json w (.reply n) = some t ∧ w.fill f = none ∧
      t.Refreshing key f := by
  unfold RevalidateWorld.staleHit at hhit
  split at hhit
  · rename_i productId raw answeredAt hn
    split at hhit
    · rename_i entry hraw
      split at hhit
      · cases hhit
      · rename_i hstale
        cases hhit
        have hreply : revalidateStep options json w (.reply n) =
            some (w.afterGet json n productId raw answeredAt) := by
          simp only [revalidateStep,hn]
        have hrefreshed : w.afterGet json n productId raw answeredAt =
            { w.startFill productId none with
              refreshInFlight := insert (productCacheKey productId) w.refreshInFlight }.serve n
                productId entry.product answeredAt := by
          simp only [RevalidateWorld.afterGet,hraw,if_neg hstale,
            RevalidateWorld.triggerBackgroundRefresh,if_neg hfree]
        rw [hrefreshed] at hreply
        refine ⟨_,w.fills,hreply,h.fresh _ (Nat.le_refl _),_,Function.update_self _ _ _,?_⟩
        exact ⟨rfl,rfl,rfl⟩
    · cases hhit
  · cases hhit

namespace RevalidateWorld.Deduplicated

private theorem restarts (h : w.Deduplicated) {key : String} (hfree : key ∉ w.refreshInFlight) :
    w.Restarts options json key := by
  intro es t n hrun hspares hhit
  have hdeduplicated : t.Deduplicated := run_invariant (fun _ _ _ hw => hw.step) h hrun
  have hstill : key ∉ t.refreshInFlight :=
    hspares.invariant hrun hfree fun _ _ _ hw hok hstep => free_step hw hok hstep
  exact stale_refresh hdeduplicated hstill hhit

theorem revalidating (h : w.Deduplicated) : w.Revalidating options json := by
  refine ⟨h.once,h.inFlight,?_,?_⟩
  · intro e t hstep hne
    cases revalidateStep_move hstep with
    | refused hf hcommand => exact absurd rfl hne
    | set hf hcommand => exact ⟨_,_,rfl,hf,by simp [hcommand]⟩
    | @finished f c outcome hf hphase =>
      refine absurd ?_ hne
      unfold RevalidateWorld.finish
      dsimp only
      split <;> rfl
    | _ => exact absurd rfl hne
  · rintro f ⟨productId,call,startedAt,phase⟩ error hf hcall hphase
    obtain rfl : call = none := hcall
    obtain rfl : phase = .settled (.error error) := hphase
    have hover := h.finish hf rfl (.error error)
    have hfinish : revalidateStep options json w (.finish f) =
        some (w.finish f ⟨productId,none,startedAt,.settled (.error error)⟩ (.error error)) := by
      simp only [revalidateStep,hf]
    have hfree : productCacheKey productId ∉
        (w.refreshInFlight.erase (productCacheKey productId)) := Finset.notMem_erase _ _
    exact ⟨fun es t => h.settled_silent hf rfl,_,hfinish,rfl,hfree,hover.restarts hfree⟩

end RevalidateWorld.Deduplicated

end SystemsLab.Caching
