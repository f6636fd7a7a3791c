import SystemsLab.Locks.FencingOrder

/-!
# Draws under a running lease

`SET … NX` succeeds on a key only after every earlier lease on it has lapsed. A client whose
lease still runs when it draws is therefore in turn, and a fleet of such clients is fenced.
-/

namespace SystemsLab.Locks

/-- What the lock key says about the callers that were granted it. -/
structure Leased (w : FencingWorld) : Prop where
  entry : ∀ a ∈ w.issued, w.clock < (w.caller a).leaseUntil → ∃ v,
    w.redis (lockKeyFor (w.caller a).resource) = some ⟨v,some (w.caller a).leaseUntil⟩
  lapsed : ∀ a ∈ w.issued, ∀ b ∈ w.issued, (w.caller b).resource = (w.caller a).resource →
    (w.caller a).turn < (w.caller b).turn → (w.caller a).leaseUntil ≤ w.clock
  turns : ∀ a ∈ w.issued, (w.caller a).turn < w.issued.length
  started : ∀ a ∈ w.issued, (w.caller a).phase ≠ .idle
  acquired : ∀ a, (w.caller a).phase = .acquired → a ∈ w.issued

/-- A client that draws does so while its lease runs. -/
def DrawsLeased (w : FencingWorld) : FencingEvent → Prop
  | .incr id => (w.caller id).phase = .acquired → w.clock < (w.caller id).leaseUntil
  | _ => True

private theorem Leased.inTurn {w : FencingWorld} (h : Leased w) {id : Nat}
    (hacq : (w.caller id).phase = .acquired) (hlive : w.clock < (w.caller id).leaseUntil) :
    InTurn w (.incr id) := by
  intro b hb hr ht
  have := h.lapsed id (h.acquired id hacq) b hb hr ht
  omega

theorem Leased.frame {w w' : FencingWorld} (h : Leased w) (hissued : w'.issued = w.issued)
    (hclock : w.clock ≤ w'.clock)
    (hkeys : ∀ r, w'.redis (lockKeyFor r) = w.redis (lockKeyFor r))
    (hcaller : ∀ a ∈ w.issued, (w'.caller a).resource = (w.caller a).resource ∧
      (w'.caller a).turn = (w.caller a).turn ∧
      (w'.caller a).leaseUntil = (w.caller a).leaseUntil ∧ (w'.caller a).phase ≠ .idle)
    (hacq : ∀ a, (w'.caller a).phase = .acquired → (w.caller a).phase = .acquired) :
    Leased w' := by
  refine ⟨?_,?_,?_,?_,?_⟩
  · intro a ha hlive
    rw [hissued] at ha
    obtain ⟨hr,-,hl,-⟩ := hcaller a ha
    rw [hl] at hlive
    rw [hr,hl,hkeys]
    exact h.entry a ha (by omega)
  · intro a ha b hb hr ht
    rw [hissued] at ha hb
    obtain ⟨hra,hta,hla,-⟩ := hcaller a ha
    obtain ⟨hrb,htb,-,-⟩ := hcaller b hb
    rw [hra,hrb] at hr
    rw [hta,htb] at ht
    have := h.lapsed a ha b hb hr ht
    omega
  · intro a ha
    rw [hissued] at ha ⊢
    rw [(hcaller a ha).2.1]
    exact h.turns a ha
  · intro a ha
    rw [hissued] at ha
    exact (hcaller a ha).2.2.2
  · intro a ha
    rw [hissued]
    exact h.acquired a (hacq a ha)

private theorem Leased.granted {w w' : FencingWorld} (h : Leased w) {id : Nat} {r : String}
    (hidle : (w.caller id).phase = .idle)
    (hfree : w.redis.lookup w.clock (lockKeyFor r) = none)
    (hissued : w'.issued = id::w.issued) (hclock : w'.clock = w.clock)
    (hself : (w'.caller id).resource = r ∧ (w'.caller id).turn = w.issued.length ∧
      (w'.caller id).phase = .acquired)
    (hother : ∀ a, a ≠ id → w'.caller a = w.caller a)
    (hkey : ∃ v, w'.redis (lockKeyFor r) = some ⟨v,some (w'.caller id).leaseUntil⟩)
    (hkeys : ∀ q, q ≠ r → w'.redis (lockKeyFor q) = w.redis (lockKeyFor q)) : Leased w' := by
  have hne : ∀ a ∈ w.issued, a ≠ id := by
    rintro a ha rfl
    exact h.started _ ha hidle
  have hover : ∀ a ∈ w.issued, (w.caller a).resource = r →
      (w.caller a).leaseUntil ≤ w.clock := by
    intro a ha hr
    by_contra hlive
    push Not at hlive
    obtain ⟨u,hu⟩ := h.entry a ha hlive
    rw [hr] at hu
    simp [Keyspace.lookup,hu,RedisEntry.expired] at hfree
    omega
  obtain ⟨hr,ht,hp⟩ := hself
  refine ⟨?_,?_,?_,?_,?_⟩
  · intro a ha hlive
    rw [hissued] at ha
    rw [hclock] at hlive
    cases ha with
    | head =>
      rw [hr]
      exact hkey
    | tail _ ha =>
      rw [hother a (hne a ha)] at hlive ⊢
      by_cases hq : (w.caller a).resource = r
      · have := hover a ha hq
        omega
      · rw [hkeys _ hq]
        exact h.entry a ha hlive
  · intro a ha b hb hrr htt
    rw [hissued] at ha hb
    rw [hclock]
    cases ha with
    | head =>
      cases hb with
      | head => omega
      | tail _ hb =>
        rw [hother b (hne b hb),ht] at htt
        have := h.turns b hb
        omega
    | tail _ ha =>
      rw [hother a (hne a ha)] at hrr htt ⊢
      cases hb with
      | head => exact hover a ha (hrr.symm.trans hr)
      | tail _ hb =>
        rw [hother b (hne b hb)] at hrr htt
        exact h.lapsed a ha b hb hrr htt
  · intro a ha
    rw [hissued] at ha ⊢
    rw [List.length_cons]
    cases ha with
    | head => omega
    | tail _ ha =>
      rw [hother a (hne a ha)]
      exact Nat.lt_succ_of_lt (h.turns a ha)
  · intro a ha
    rw [hissued] at ha
    cases ha with
    | head => simp [hp]
    | tail _ ha =>
      rw [hother a (hne a ha)]
      exact h.started a ha
  · intro a ha
    rw [hissued]
    by_cases hid : a = id
    · subst hid
      exact List.mem_cons_self
    · rw [hother a hid] at ha
      exact List.mem_cons_of_mem _ (h.acquired a ha)

private theorem leased_of_fresh {w : FencingWorld} (h : w.Fresh) : Leased w := by
  obtain ⟨hc,hi,-,-⟩ := h
  refine ⟨?_,?_,?_,?_,?_⟩
  · simp [hi]
  · simp [hi]
  · simp [hi]
  · simp [hi]
  · simp [hc]

theorem Leased.step {w w' : FencingWorld} {e : FencingEvent} (h : Leased w)
    (hs : fencingStep w e = some w') : Leased w' := by
  have hput : ∀ id ph redis, (w.caller id).phase ≠ .idle → ph ≠ .idle → ph ≠ .acquired →
      (∀ r, redis (lockKeyFor r) = w.redis (lockKeyFor r)) →
      Leased { w.put id { w.caller id with phase := ph } with redis } := by
    intro id ph redis hid hidle hacq hkeys
    apply h.frame
    · rfl
    · exact le_rfl
    · exact hkeys
    · intro a ha
      by_cases haid : a = id
      · subst haid
        simp [FencingWorld.put,hidle]
      · simp [FencingWorld.put,haid,h.started a ha]
    · intro a ha
      by_cases haid : a = id
      · subst haid
        simp [FencingWorld.put,hacq] at ha
      · simpa [FencingWorld.put,haid] using ha
  cases fencingStep_move hs with
  | @denied id r _ _ ph hidle hph =>
    have hne : ∀ a ∈ w.issued, a ≠ id := by
      rintro a ha rfl
      exact h.started _ ha hidle
    apply h.frame
    · rfl
    · exact le_rfl
    · exact fun _ => rfl
    · intro a ha
      simp [FencingWorld.put,hne a ha,h.started a ha]
    · intro a ha
      by_cases haid : a = id
      · subst haid
        rcases hph with rfl | rfl <;> simp [FencingWorld.put] at ha
      · simpa [FencingWorld.put,haid] using ha
  | @granted id r o ttl hidle hfree =>
    apply h.granted hidle hfree
    · rfl
    · rfl
    · simp [FencingWorld.put]
    · intro a ha
      simp [FencingWorld.put,ha]
    · exact ⟨.text o,by simp [FencingWorld.put]⟩
    · intro q hq
      exact Function.update_of_ne (mt lockKeyFor_inj.mp hq) _ _
  | @incrFailed id hacq =>
    exact hput id .failed w.redis (by simp [hacq]) (by simp) (by simp) fun _ => rfl
  | @drew id redis n hacq hincr =>
    apply hput id (.holding n) redis (by simp [hacq]) (by simp) (by simp)
    intro r
    exact Keyspace.incr_of_ne hincr (lockKeyFor_ne_counter r _)
  | wrote | wroteUnlocked =>
    apply h.frame
    · rfl
    · exact le_rfl
    · exact fun _ => rfl
    · exact fun a ha => ⟨rfl,rfl,rfl,h.started a ha⟩
    · exact fun _ => id
  | advanced ms =>
    apply h.frame
    · rfl
    · show w.clock ≤ w.clock + ms
      omega
    · exact fun _ => rfl
    · exact fun a ha => ⟨rfl,rfl,rfl,h.started a ha⟩
    · exact fun _ => id

theorem fenced_of_drawsLeased {w w' : FencingWorld} (hw : w.Fresh) {es : List FencingEvent}
    (hrun : run fencingStep w es = some w') (hdraws : Along fencingStep DrawsLeased w es) :
    Fenced w' := by
  rw [fenced_iff_inTurn hw hrun]
  apply Along.imp (fun _ _ _ h hs => Leased.step h hs) _ (leased_of_fresh hw) hrun hdraws
  intro v e v' h hs hleased
  cases e with
  | incr id =>
    cases hp : (v.caller id).phase with
    | acquired => exact h.inTurn hp (hleased hp)
    | _ => simp [fencingStep,hp] at hs
  | _ => trivial

end SystemsLab.Locks
