import SystemsLab.Caching.RequestCoalescing

/-!
# One fetch per key

The entry for a key is the promise of an initiator that has not settled, and no other call
touches it: later calls find it and join. So the `delete` of an initiator removes its own
entry, and by then its fetch is over.
-/

namespace SystemsLab.Caching

variable {α ε : Type} {parse : String → Except ε α} {w w' : CoalescingWorld α ε}

/-- What the callers of one cache may rely on. -/
structure CoalescingWorld.Coalesced (parse : String → Except ε α) (w : CoalescingWorld α ε) :
    Prop where
  single : ∀ f g F G, w.fetch f = some F → w.fetch g = some G → F.Unsettled → G.Unsettled →
    F.key = G.key → f = g
  stored : ∀ f F, w.fetch f = some F → F.Unsettled → w.inFlight F.key = some f
  shared : ∀ n c outcome, w.call n = some c → c.outcome = some outcome →
    ∃ F, w.fetch c.fetch = some F ∧ F.key = c.key ∧ F.phase = .settled outcome
  settles : ∀ n c F outcome, w.call n = some c → c.outcome = none → w.fetch c.fetch = some F →
    F.phase = .settled outcome → ∃ w', coalescingStep parse w (.resume n) = some w' ∧
      w'.call n = some { c with outcome := some outcome }
  cleared : ∀ key, (∀ n c, w.call n = some c → c.key = key → c.outcome ≠ none) →
    w.inFlight key = none
  restarts : ∀ n productId, w.call n = none →
    (∀ m c, w.call m = some c → c.key = productCacheKey productId → c.outcome ≠ none) →
    ∃ w' f, coalescingStep parse w (.getProduct n productId) = some w' ∧ w.fetch f = none ∧
      w'.fetch f = some { key := productCacheKey productId } ∧
      w'.call n = some { key := productCacheKey productId, fetch := f, initiator := true }
  removed : ∀ e w' key f, coalescingStep parse w e = some w' → w.inFlight key = some f →
    w'.inFlight key = some f ∨ ∃ n c, e = .resume n ∧ w.call n = some c ∧ c.key = key ∧
      c.fetch = f ∧ c.initiator = true ∧ w'.inFlight key = none

/-- An entry is the promise of an initiator that still has its `finally` to run. -/
structure CoalescingWorld.Consistent (w : CoalescingWorld α ε) : Prop where
  unused : ∀ f, w.nextFetch ≤ f → w.fetch f = none
  entry : ∀ key f, w.inFlight key = some f → ∃ n c, w.call n = some c ∧ c.key = key ∧
    c.fetch = f ∧ c.initiator = true ∧ c.outcome = none
  own : ∀ n c, w.call n = some c → c.initiator = true → c.outcome = none →
    w.inFlight c.key = some c.fetch
  one : ∀ n m c d, w.call n = some c → w.call m = some d → c.initiator = true →
    d.initiator = true → c.fetch = d.fetch → n = m
  fetched : ∀ n c, w.call n = some c → ∃ F, w.fetch c.fetch = some F ∧ F.key = c.key ∧
    ∀ outcome, c.outcome = some outcome → F.phase = .settled outcome
  stored : ∀ f F, w.fetch f = some F → F.Unsettled → w.inFlight F.key = some f

namespace CoalescingWorld.Consistent

private theorem initial : (({} : CoalescingWorld α ε)).Consistent where
  unused _ _ := rfl
  entry _ _ h := nomatch h
  own _ _ h := nomatch h
  one _ _ _ _ h := nomatch h
  fetched _ _ h := nomatch h
  stored _ _ h := nomatch h

private theorem setPhase (h : w.Consistent) {f : Nat} {F : Fetch α ε} (hf : w.fetch f = some F)
    (hopen : F.Unsettled) (phase : FetchPhase α ε) : (w.setPhase f F.key phase).Consistent := by
  have hlt : f < w.nextFetch := by
    by_contra hge
    rw [h.unused f (Nat.not_lt.mp hge)] at hf
    cases hf
  refine ⟨?_,h.entry,h.own,h.one,?_,?_⟩
  · intro g hg
    have hg : w.nextFetch ≤ g := hg
    show Function.update w.fetch f _ g = none
    rw [Function.update_of_ne (by omega)]
    exact h.unused g hg
  · intro n c hc
    obtain ⟨G,hG,hkey,hsettled⟩ := h.fetched n c hc
    show ∃ G, Function.update w.fetch f _ c.fetch = some G ∧ _
    by_cases hfetch : c.fetch = f
    · rw [hfetch,hf] at hG
      cases hG
      rw [hfetch,Function.update_self]
      exact ⟨_,rfl,hkey,fun outcome ho => absurd (hsettled outcome ho) (hopen outcome)⟩
    · rw [Function.update_of_ne hfetch]
      exact ⟨G,hG,hkey,hsettled⟩
  · intro g G hG hunsettled
    rcases update_eq_some hG with ⟨rfl,rfl⟩ | ⟨_,hold⟩
    · exact h.stored g F hf hopen
    · exact h.stored g G hold hunsettled

private theorem join (h : w.Consistent) {n f : Nat} {key : String} (hn : w.call n = none)
    (hentry : w.inFlight key = some f) :
    (w.setCall n { key, fetch := f, initiator := false }).Consistent := by
  refine ⟨h.unused,?_,?_,?_,?_,h.stored⟩
  · intro key' g hg
    obtain ⟨m,c,hc,hrest⟩ := h.entry key' g hg
    exact ⟨m,c,update_of_some hn hc,hrest⟩
  · intro m c hc hinitiator
    rcases update_eq_some hc with ⟨rfl,rfl⟩ | ⟨_,hold⟩
    · cases hinitiator
    · exact h.own m c hold hinitiator
  · intro m k c d hc hd hic hid
    rcases update_eq_some hc with ⟨rfl,rfl⟩ | ⟨_,holdc⟩
    · cases hic
    · rcases update_eq_some hd with ⟨rfl,rfl⟩ | ⟨_,holdd⟩
      · cases hid
      · exact h.one m k c d holdc holdd hic hid
  · intro m c hc
    rcases update_eq_some hc with ⟨rfl,rfl⟩ | ⟨_,hold⟩
    · obtain ⟨k,d,hd,hkey,hfetch,_⟩ := h.entry key f hentry
      obtain ⟨F,hF,hFkey,_⟩ := h.fetched k d hd
      rw [hfetch] at hF
      exact ⟨F,hF,hFkey.trans hkey,nofun⟩
    · exact h.fetched m c hold

theorem start (h : w.Consistent) {n : Nat} {productId : Int} (hn : w.call n = none)
    (hentry : w.inFlight (productCacheKey productId) = none) :
    (w.getProduct n productId).Consistent := by
  have hfetch := h.unused w.nextFetch (Nat.le_refl _)
  unfold CoalescingWorld.getProduct
  dsimp only
  rw [hentry]
  refine ⟨?_,?_,?_,?_,?_,?_⟩
  · intro f hf
    have hf : w.nextFetch + 1 ≤ f := hf
    show Function.update w.fetch w.nextFetch _ f = none
    rw [Function.update_of_ne (by omega)]
    exact h.unused f (by omega)
  · intro key f hf
    rcases update_eq_some hf with ⟨rfl,rfl⟩ | ⟨_,hold⟩
    · exact ⟨n,_,Function.update_self _ _ _,rfl,rfl,rfl,rfl⟩
    · obtain ⟨m,c,hc,hrest⟩ := h.entry key f hold
      exact ⟨m,c,update_of_some hn hc,hrest⟩
  · intro m c hc hinitiator hopen
    rcases update_eq_some hc with ⟨rfl,rfl⟩ | ⟨_,hold⟩
    · exact Function.update_self _ _ _
    · exact update_of_some hentry (h.own m c hold hinitiator hopen)
  · intro m k c d hc hd hic hid heq
    have hother : ∀ m c, w.call m = some c → c.fetch ≠ w.nextFetch := by
      intro m c hc hnext
      obtain ⟨F,hF,_⟩ := h.fetched m c hc
      rw [hnext,hfetch] at hF
      cases hF
    rcases update_eq_some hc with ⟨rfl,rfl⟩ | ⟨_,holdc⟩
    · rcases update_eq_some hd with ⟨rfl,rfl⟩ | ⟨_,holdd⟩
      · rfl
      · exact absurd heq.symm (hother k d holdd)
    · rcases update_eq_some hd with ⟨rfl,rfl⟩ | ⟨_,holdd⟩
      · exact absurd heq (hother m c holdc)
      · exact h.one m k c d holdc holdd hic hid heq
  · intro m c hc
    rcases update_eq_some hc with ⟨rfl,rfl⟩ | ⟨_,hold⟩
    · exact ⟨_,Function.update_self _ _ _,rfl,nofun⟩
    · obtain ⟨F,hF,hrest⟩ := h.fetched m c hold
      exact ⟨F,update_of_some hfetch hF,hrest⟩
  · intro f F hF hunsettled
    rcases update_eq_some hF with ⟨rfl,rfl⟩ | ⟨_,hold⟩
    · exact Function.update_self _ _ _
    · exact update_of_some hentry (h.stored f F hold hunsettled)

theorem settle (h : w.Consistent) {n : Nat} {c : GetProduct α ε} {F : Fetch α ε}
    {outcome : Except ε α} (hc : w.call n = some c) (hF : w.fetch c.fetch = some F)
    (hsettled : F.phase = .settled outcome) {inFlight : String → Option Nat}
    (hentry : ∀ key f, inFlight key = some f → w.inFlight key = some f ∧
      (c.initiator = true → key ≠ c.key))
    (hkept : ∀ key f, w.inFlight key = some f → f ≠ c.fetch ∨ c.initiator = false →
      inFlight key = some f) :
    ({ w.setCall n { c with outcome := some outcome } with inFlight } :
      CoalescingWorld α ε).Consistent := by
  refine ⟨h.unused,?_,?_,?_,?_,?_⟩
  · intro key f hf
    obtain ⟨hold,hkey⟩ := hentry key f hf
    obtain ⟨m,d,hd,hdkey,hrest⟩ := h.entry key f hold
    refine ⟨m,d,?_,hdkey,hrest⟩
    show Function.update w.call n _ m = some d
    rw [Function.update_of_ne]
    · exact hd
    · rintro rfl
      rw [hc] at hd
      cases hd
      exact hkey hrest.2.1 hdkey.symm
  · intro m d hd hinitiator hopen
    rcases update_eq_some hd with ⟨rfl,rfl⟩ | ⟨hm,hold⟩
    · cases hopen
    · apply hkept
      · exact h.own m d hold hinitiator hopen
      · by_cases hic : c.initiator = true
        · exact .inl fun heq => hm (h.one m n d c hold hc hinitiator hic heq)
        · exact .inr (Bool.eq_false_iff.mpr hic)
  · intro m k d d' hd hd' hid hid' heq
    rcases update_eq_some hd with ⟨rfl,rfl⟩ | ⟨_,hold⟩
    · rcases update_eq_some hd' with ⟨rfl,rfl⟩ | ⟨_,hold'⟩
      · rfl
      · exact h.one m k c d' hc hold' hid hid' heq
    · rcases update_eq_some hd' with ⟨rfl,rfl⟩ | ⟨_,hold'⟩
      · exact h.one m k d c hold hc hid hid' heq
      · exact h.one m k d d' hold hold' hid hid' heq
  · intro m d hd
    rcases update_eq_some hd with ⟨rfl,rfl⟩ | ⟨_,hold⟩
    · obtain ⟨G,hG,hkey,_⟩ := h.fetched m c hc
      rw [hF] at hG
      cases hG
      refine ⟨F,hF,hkey,fun outcome' ho => ?_⟩
      cases ho
      exact hsettled
    · exact h.fetched m d hold
  · intro f G hG hunsettled
    apply hkept _ _ (h.stored f G hG hunsettled)
    refine .inl fun heq => ?_
    rw [heq] at hG
    have hGF : G = F := Option.some.inj (hG.symm.trans hF)
    exact hunsettled outcome (hGF ▸ hsettled)

private theorem resume (h : w.Consistent) {n : Nat} {c : GetProduct α ε} {F : Fetch α ε}
    {outcome : Except ε α} (hc : w.call n = some c) (hopen : c.outcome = none)
    (hF : w.fetch c.fetch = some F) (hsettled : F.phase = .settled outcome) :
    (w.resume n c outcome).Consistent := by
  unfold CoalescingWorld.resume
  dsimp only
  by_cases hinitiator : c.initiator = true
  · rw [if_pos hinitiator]
    have hown := h.own n c hc hinitiator hopen
    apply h.settle hc hF hsettled
    · intro key f hf
      by_cases hkey : key = c.key
      · subst hkey
        rw [Function.update_self] at hf
        cases hf
      · rw [Function.update_of_ne hkey] at hf
        exact ⟨hf,fun _ => hkey⟩
    · intro key f hf hother
      rw [Function.update_of_ne]
      · exact hf
      · rintro rfl
        rw [hown] at hf
        rcases hother with hne | hjoined
        · exact hne (Option.some.inj hf).symm
        · rw [hinitiator] at hjoined
          cases hjoined
  · rw [if_neg hinitiator]
    exact h.settle hc hF hsettled (fun _ _ hf => ⟨hf,fun hi => absurd hi hinitiator⟩)
      fun _ _ hf _ => hf

theorem step (h : w.Consistent) {e : CoalescingEvent α ε} (hs : coalescingStep parse w e = some w') :
    w'.Consistent := by
  cases e with
  | getProduct n productId =>
    unfold coalescingStep at hs
    dsimp only at hs
    split at hs
    · rename_i hn
      cases hs
      cases hentry : w.inFlight (productCacheKey productId) with
      | none => exact h.start hn hentry
      | some f =>
        unfold CoalescingWorld.getProduct
        dsimp only
        rw [hentry]
        exact h.join hn hentry
    · cases hs
  | redisGet f reply =>
    unfold coalescingStep at hs
    dsimp only at hs
    split at hs
    · rename_i hf
      cases hs
      exact h.setPhase hf nofun _
    · cases hs
  | database f reply =>
    unfold coalescingStep at hs
    dsimp only at hs
    split at hs
    · rename_i hf
      cases hs
      exact h.setPhase hf nofun _
    · cases hs
  | redisSet f reply =>
    unfold coalescingStep at hs
    dsimp only at hs
    split at hs
    · rename_i hf
      cases hs
      exact h.setPhase hf nofun _
    · cases hs
  | resume n =>
    unfold coalescingStep at hs
    dsimp only at hs
    split at hs
    · rename_i hn
      split at hs
      · rename_i hf
        cases hs
        exact h.resume hn rfl hf rfl
      · cases hs
    · cases hs

/-- Only the `finally` of its own initiator removes an entry. -/
theorem removed (h : w.Consistent) {e : CoalescingEvent α ε} {key : String} {f : Nat}
    (hs : coalescingStep parse w e = some w') (hentry : w.inFlight key = some f) :
    w'.inFlight key = some f ∨ ∃ n c, e = .resume n ∧ w.call n = some c ∧ c.key = key ∧
      c.fetch = f ∧ c.initiator = true ∧ w'.inFlight key = none := by
  unfold coalescingStep at hs
  cases e with
  | getProduct n productId =>
    dsimp only at hs
    split at hs <;> cases hs
    unfold CoalescingWorld.getProduct
    dsimp only
    split
    · exact .inl hentry
    · rename_i hnone
      exact .inl (update_of_some hnone hentry)
  | redisGet g reply =>
    dsimp only at hs
    split at hs <;> cases hs
    exact .inl hentry
  | database g reply =>
    dsimp only at hs
    split at hs <;> cases hs
    exact .inl hentry
  | redisSet g reply =>
    dsimp only at hs
    split at hs <;> cases hs
    exact .inl hentry
  | resume n =>
    dsimp only at hs
    split at hs
    · rename_i key' g initiator hn
      split at hs <;> cases hs
      unfold CoalescingWorld.resume
      dsimp only
      cases initiator with
      | false => exact .inl hentry
      | true =>
        by_cases hkey : key = key'
        · subst hkey
          have hown := h.own n _ hn rfl rfl
          rw [hentry] at hown
          exact .inr ⟨n,_,rfl,hn,rfl,(Option.some.inj hown).symm,rfl,Function.update_self _ _ _⟩
        · refine .inl ?_
          show Function.update w.inFlight key' none key = some f
          rw [Function.update_of_ne hkey]
          exact hentry
    · cases hs

private theorem coalesced (h : w.Consistent) : w.Coalesced parse := by
  have hcleared : ∀ key, (∀ n c, w.call n = some c → c.key = key → c.outcome ≠ none) →
      w.inFlight key = none := by
    intro key hsettled
    by_contra hsome
    obtain ⟨f,hf⟩ := Option.ne_none_iff_exists'.mp hsome
    obtain ⟨n,c,hc,hkey,_,_,hopen⟩ := h.entry key f hf
    exact hsettled n c hc hkey hopen
  refine ⟨?_,h.stored,?_,?_,hcleared,?_,fun e w' key f hs hf => h.removed hs hf⟩
  · intro f g F G hF hG hf hg hkey
    have hstored := h.stored f F hF hf
    rw [hkey,h.stored g G hG hg] at hstored
    exact (Option.some.inj hstored).symm
  · intro n c outcome hc ho
    obtain ⟨F,hF,hkey,hsettled⟩ := h.fetched n c hc
    exact ⟨F,hF,hkey,hsettled outcome ho⟩
  · rintro n ⟨key,f,initiator,outcome⟩ ⟨fkey,phase⟩ o hc hopen hF hphase
    obtain rfl : outcome = none := hopen
    obtain rfl : phase = .settled o := hphase
    refine ⟨w.resume n ⟨key,f,initiator,none⟩ o,?_,?_⟩
    · unfold coalescingStep
      dsimp only
      rw [hc]
      dsimp only
      rw [hF]
    · unfold CoalescingWorld.resume
      dsimp only
      cases initiator <;> exact Function.update_self _ _ _
  · intro n productId hn hsettled
    have hnone := hcleared _ hsettled
    refine ⟨w.getProduct n productId,w.nextFetch,?_,h.unused _ (Nat.le_refl _),?_,?_⟩
    · unfold coalescingStep
      dsimp only
      rw [hn]
    · unfold CoalescingWorld.getProduct
      dsimp only
      rw [hnone]
      exact Function.update_self _ _ _
    · unfold CoalescingWorld.getProduct
      dsimp only
      rw [hnone]
      exact Function.update_self _ _ _

end CoalescingWorld.Consistent

theorem coalescingCache_coalesced (h : Reachable (coalescingStep parse) (· = {}) w) :
    w.Coalesced parse := by
  have hconsistent : w.Consistent := by
    refine h.invariant ?_ fun _ _ _ hw _ hs => hw.step hs
    rintro _ rfl
    exact .initial
  exact hconsistent.coalesced

/-- Two calls share a fetch that fails, a third comes before its initiator has run on, and the
one after that starts afresh. -/
def failedFetch : List (CoalescingEvent Nat String) :=
  [.getProduct 0 7,.getProduct 1 7,.getProduct 2 8,.redisGet 0 (.ok none),
    .database 0 (.error "refused"),.getProduct 3 7,.resume 1,.resume 0,.getProduct 4 7,.resume 3]

theorem failedFetch_coalesced :
    ∃ w, run (coalescingStep fun _ => .ok 0) {} failedFetch = some w ∧
      w.Coalesced fun _ => .ok 0 := by
  have hrun : (run (coalescingStep fun _ => .ok 0) {} failedFetch).isSome = true := by
    decide +kernel
  obtain ⟨w,hw⟩ := Option.isSome_iff_exists.mp hrun
  have hstart : Reachable (coalescingStep fun _ => (.ok 0 : Except String Nat)) (· = {}) {} :=
    .start rfl
  exact ⟨w,hw,coalescingCache_coalesced (hstart.run hw)⟩

end SystemsLab.Caching
