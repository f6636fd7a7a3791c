import SystemsLab.Resilience.UnreliableDownstream

/-! # The accounts of `UnreliableDownstream` -/

namespace SystemsLab.Resilience

open UnreliableDownstream

variable {ν : Type*}

def providedKeys (calls : List (ChargeCall ν)) : Finset String :=
  (calls.filterMap ChargeCall.idempotencyKey).toFinset

def keylessCalls (calls : List (ChargeCall ν)) : List (ChargeCall ν) :=
  calls.filter fun c => c.idempotencyKey.isNone

def firstCall (calls : List (ChargeCall ν)) (key : String) : Option (ChargeCall ν) :=
  calls.find? fun c => c.idempotencyKey = some key

def firstAmount [Zero ν] (calls : List (ChargeCall ν)) (key : String) : ν :=
  (firstCall calls key).elim 0 ChargeCall.amountCents

/-- The calls with this key that have charged the ledger. -/
def chargesOf (calls : List (ChargeCall ν)) (key : String) : Nat :=
  calls.countP fun c => c.charged && c.idempotencyKey = some key

variable {calls : List (ChargeCall ν)} {c : ChargeCall ν} {key : String}

private theorem mem_providedKeys :
    key ∈ providedKeys calls ↔ ∃ c ∈ calls, c.idempotencyKey = some key := by
  simp [providedKeys]

private theorem providedKeys_append_none (h : c.idempotencyKey = none) :
    providedKeys (calls ++ [c]) = providedKeys calls := by
  simp [providedKeys,h]

private theorem providedKeys_append_some (h : c.idempotencyKey = some key) :
    providedKeys (calls ++ [c]) = insert key (providedKeys calls) := by
  ext k
  simp [providedKeys,h,eq_comm]

private theorem providedKeys_subset_append (calls : List (ChargeCall ν)) (c : ChargeCall ν) :
    providedKeys calls ⊆ providedKeys (calls ++ [c]) := by
  intro key hkey
  obtain ⟨c',hc',hkey⟩ := mem_providedKeys.mp hkey
  exact mem_providedKeys.mpr ⟨c',List.mem_append_left _ hc',hkey⟩

private theorem keylessCalls_append_some (h : c.idempotencyKey = some key) :
    keylessCalls (calls ++ [c]) = keylessCalls calls := by
  simp [keylessCalls,h]

private theorem keylessCalls_append_none (h : c.idempotencyKey = none) :
    keylessCalls (calls ++ [c]) = keylessCalls calls ++ [c] := by
  simp [keylessCalls,h]

private theorem chargesOf_append (calls : List (ChargeCall ν)) (c : ChargeCall ν) (key : String) :
    chargesOf (calls ++ [c]) key =
      chargesOf calls key + if c.charged && c.idempotencyKey = some key then 1 else 0 := by
  simp [chargesOf,List.countP_append,List.countP_singleton]

private theorem chargesOf_eq_zero (h : key ∉ providedKeys calls) : chargesOf calls key = 0 := by
  rw [chargesOf,List.countP_eq_zero]
  intro c hc
  have hkey : c.idempotencyKey ≠ some key := fun hkey => h (mem_providedKeys.mpr ⟨c,hc,hkey⟩)
  simp [hkey]

private theorem firstCall_none : firstCall calls key = none ↔ key ∉ providedKeys calls := by
  rw [firstCall,List.find?_eq_none,mem_providedKeys]
  simp

private theorem firstCall_append_of_mem (h : key ∈ providedKeys calls) :
    firstCall (calls ++ [c]) key = firstCall calls key := by
  obtain ⟨f,hf⟩ := Option.ne_none_iff_exists'.mp (firstCall_none.not_left.mpr h)
  rw [hf]
  rw [firstCall] at hf
  rw [firstCall,List.find?_append,hf,Option.some_or]

private theorem firstCall_append_new (h : key ∉ providedKeys calls)
    (hkey : c.idempotencyKey = some key) :
    firstCall (calls ++ [c]) key = some c := by
  have hnone := firstCall_none.mpr h
  rw [firstCall] at hnone
  rw [firstCall,List.find?_append,hnone]
  simp [hkey]

private theorem firstAmount_append_of_mem [Zero ν] (h : key ∈ providedKeys calls) :
    firstAmount (calls ++ [c]) key = firstAmount calls key := by
  rw [firstAmount,firstAmount,firstCall_append_of_mem h]

variable [AddCommMonoid ν]

private theorem charge_existing {d : UnreliableDownstream ν} {existing : ChargeResult ν}
    {idempotencyKey : Option String} (h : d.existing idempotencyKey = some existing) (atMs : Nat)
    (amountCents : ν) :
    (d.charge atMs amountCents idempotencyKey).1 = existing ∧
      (d.charge atMs amountCents idempotencyKey).2.ledgerTotalCents = d.ledgerTotalCents ∧
      (d.charge atMs amountCents idempotencyKey).2.chargeCounter = d.chargeCounter ∧
      (d.charge atMs amountCents idempotencyKey).2.appliedCharges = d.appliedCharges := by
  simp only [charge,h,and_self]

private theorem charge_new {d : UnreliableDownstream ν} {idempotencyKey : Option String}
    (h : d.existing idempotencyKey = none) (atMs : Nat) (amountCents : ν) :
    (d.charge atMs amountCents idempotencyKey).1.amountCents = amountCents ∧
      (d.charge atMs amountCents idempotencyKey).2.ledgerTotalCents =
        d.ledgerTotalCents + amountCents ∧
      (d.charge atMs amountCents idempotencyKey).2.chargeCounter = d.chargeCounter + 1 ∧
      (d.charge atMs amountCents idempotencyKey).2.appliedCharges =
        d.register idempotencyKey (d.charge atMs amountCents idempotencyKey).1 := by
  simp only [charge,h,and_self]

private theorem existing_some {d : UnreliableDownstream ν} {idempotencyKey : Option String}
    {existing : ChargeResult ν} (h : d.existing idempotencyKey = some existing) :
    ∃ key, idempotencyKey = some key ∧ key ≠ "" ∧ (key,existing) ∈ d.appliedCharges := by
  cases idempotencyKey with
  | none => cases h
  | some key =>
    simp only [UnreliableDownstream.existing,isTruthy,Option.any_some,decide_eq_true_eq] at h
    split at h
    · rename_i hkey
      obtain ⟨entry,hentry,rfl⟩ := Option.map_eq_some_iff.mp h
      obtain ⟨hmem,rfl⟩ := rowAt_some hentry
      exact ⟨_,rfl,hkey,hmem⟩
    · cases h

private theorem existing_none {d : UnreliableDownstream ν} {key : String}
    (h : d.existing (some key) = none) (hkey : key ≠ "") : key ∉ d.appliedCharges.map Prod.fst := by
  simp only [UnreliableDownstream.existing,isTruthy,Option.any_some,decide_eq_true hkey,if_true,
    appliedCharge,Option.map_eq_none_iff] at h
  intro hmem
  obtain ⟨entry,hentry,hkey⟩ := List.mem_map.mp hmem
  have hnone := List.find?_eq_none.mp h entry hentry
  simp [hkey] at hnone

private theorem register_new {d : UnreliableDownstream ν} {key : String} (hkey : key ≠ "")
    (hnew : key ∉ d.appliedCharges.map Prod.fst) (result : ChargeResult ν) :
    d.register (some key) result = d.appliedCharges ++ [(key,result)] := by
  simp only [register,isTruthy,Option.any_some,decide_eq_true hkey,if_true,if_neg hnew]

private theorem register_falsy (d : UnreliableDownstream ν) {idempotencyKey : Option String}
    (h : isTruthy idempotencyKey = false) (result : ChargeResult ν) :
    d.register idempotencyKey result = d.appliedCharges := by
  cases idempotencyKey with
  | none => rfl
  | some key => simp [register,h]

namespace ChargeWorld

variable {w t : ChargeWorld ν} {e : ChargeEvent ν}

/-- What a client of the downstream may count on. -/
structure Accounted (w : ChargeWorld ν) : Prop where
  oncePerKey : ∀ key, chargesOf w.calls key ≤ 1
  sameResult : ∀ i c key r, w.calls[i]? = some c → c.idempotencyKey = some key →
    w.resolution i = some r → ∃ f, firstCall w.calls key = some f ∧
      r.chargeId = f.result.chargeId ∧ r.amountCents = f.amountCents
  total : w.downstream.ledgerTotal = ((keylessCalls w.calls).map ChargeCall.amountCents).sum +
    ∑ key ∈ providedKeys w.calls, firstAmount w.calls key
  applied : w.downstream.chargesApplied = (keylessCalls w.calls).length + (providedKeys w.calls).card
  unique : w.downstream.uniqueChargeCount = (providedKeys w.calls).card

/-- Every key that is registered has been provided, and is not empty. -/
def Registered (w : ChargeWorld ν) : Prop :=
  (w.downstream.appliedCharges.map Prod.fst).Nodup ∧
    ∀ key ∈ w.downstream.appliedCharges.map Prod.fst, key ≠ "" ∧ key ∈ providedKeys w.calls

/-- As long as no call provides the empty key, each key that is provided is registered, with the
result of its first call. -/
structure Sound (w : ChargeWorld ν) : Prop where
  registered : w.Registered
  proper : "" ∉ providedKeys w.calls
  known : ∀ c ∈ w.calls, ∀ key, c.idempotencyKey = some key →
    (key,c.result) ∈ w.downstream.appliedCharges
  first : ∀ key r, (key,r) ∈ w.downstream.appliedCharges → ∃ f, firstCall w.calls key = some f ∧
    f.result = r ∧ r.amountCents = f.amountCents
  resolved : ∀ i r, w.resolution i = some r → ∃ c, w.calls[i]? = some c ∧ r = c.result
  oncePerKey : ∀ key, chargesOf w.calls key ≤ 1
  total : w.downstream.ledgerTotal = ((keylessCalls w.calls).map ChargeCall.amountCents).sum +
    ∑ key ∈ providedKeys w.calls, firstAmount w.calls key
  applied : w.downstream.chargesApplied = (keylessCalls w.calls).length + (providedKeys w.calls).card

/-- The empty key has been provided, and never will be registered. -/
def Broken (w : ChargeWorld ν) : Prop :=
  w.Registered ∧ "" ∈ providedKeys w.calls

private theorem Registered.card (h : Registered w) :
    w.downstream.uniqueChargeCount = (w.downstream.appliedCharges.map Prod.fst).toFinset.card := by
  rw [List.toFinset_card_of_nodup h.1,List.length_map]
  rfl

theorem Sound.unique (h : w.Sound) :
    w.downstream.uniqueChargeCount = (providedKeys w.calls).card := by
  rw [h.registered.card]
  congr 1
  ext key
  rw [List.mem_toFinset]
  constructor
  · exact fun hkey => (h.registered.2 key hkey).2
  · intro hkey
    obtain ⟨c,hc,hkey⟩ := mem_providedKeys.mp hkey
    exact List.mem_map_of_mem (h.known c hc key hkey)

private theorem Sound.accounted (h : w.Sound) : w.Accounted := by
  refine ⟨h.oncePerKey,?_,h.total,h.applied,h.unique⟩
  intro i c key r hc hkey hr
  obtain ⟨c',hc',rfl⟩ := h.resolved i r hr
  obtain rfl : c = c' := Option.some.inj (hc.symm.trans hc')
  have hknown := h.known c (List.mem_of_getElem? hc) key hkey
  obtain ⟨f,hf,hresult,hamount⟩ := h.first key _ hknown
  exact ⟨f,hf,by rw [hresult],hamount⟩

private theorem Broken.not_accounted (h : w.Broken) : ¬ w.Accounted := by
  intro haccounted
  obtain ⟨hregistered,hempty⟩ := h
  have hsub : (w.downstream.appliedCharges.map Prod.fst).toFinset ⊆
      (providedKeys w.calls).erase "" := by
    intro key hkey
    obtain ⟨hne,hmem⟩ := hregistered.2 key (List.mem_toFinset.mp hkey)
    exact Finset.mem_erase.mpr ⟨hne,hmem⟩
  have hcard := Finset.card_le_card hsub
  have hlt := Finset.card_erase_lt_of_mem hempty
  have hunique := haccounted.unique
  rw [hregistered.card] at hunique
  omega

private theorem charge_registered (h : w.Registered) {atMs : Nat} {amountCents : ν}
    {idempotencyKey : Option String}
    (hstep : w.step (.charge atMs amountCents idempotencyKey) = some t) : t.Registered := by
  cases hstep
  have hsub := providedKeys_subset_append w.calls
  cases hexisting : w.downstream.existing idempotencyKey with
  | some existing =>
    have hsame := (charge_existing hexisting atMs amountCents).2.2.2
    simp only [Registered,hsame]
    exact ⟨h.1,fun key hkey => ⟨(h.2 key hkey).1,hsub _ (h.2 key hkey).2⟩⟩
  | none =>
    have hregister := (charge_new hexisting atMs amountCents).2.2.2
    simp only [Registered,hregister]
    cases htruthy : isTruthy idempotencyKey with
    | false =>
      rw [register_falsy _ htruthy]
      exact ⟨h.1,fun key hkey => ⟨(h.2 key hkey).1,hsub _ (h.2 key hkey).2⟩⟩
    | true =>
      obtain ⟨new,rfl,hne⟩ : ∃ new, idempotencyKey = some new ∧ new ≠ "" := by
        simpa [isTruthy,Option.any_eq_true] using htruthy
      have hfresh := existing_none hexisting hne
      rw [register_new hne hfresh]
      refine ⟨nodup_append_fresh h.1 hfresh,fun key hkey => ?_⟩
      rw [List.map_append] at hkey
      rcases List.mem_append.mp hkey with hold | hnew
      · exact ⟨(h.2 key hold).1,hsub _ (h.2 key hold).2⟩
      · have heq : key = new := by simpa using hnew
        subst heq
        exact ⟨hne,mem_providedKeys.mpr ⟨_,List.mem_append_right _ List.mem_cons_self,rfl⟩⟩

theorem Broken.step (h : w.Broken) (hstep : w.step e = some t) : t.Broken := by
  cases e with
  | charge atMs amountCents idempotencyKey =>
    refine ⟨charge_registered h.1 hstep,?_⟩
    cases hstep
    exact providedKeys_subset_append _ _ h.2
  | respond call =>
    obtain ⟨c,_,rfl⟩ := Option.map_eq_some_iff.mp hstep
    exact h
  | abandon call =>
    cases hstep
    exact h

private theorem resolved_append {c : ChargeCall ν}
    (h : ∀ i r, w.resolution i = some r → ∃ c, w.calls[i]? = some c ∧ r = c.result) :
    ∀ i r, w.resolution i = some r → ∃ c', (w.calls ++ [c])[i]? = some c' ∧ r = c'.result := by
  intro i r hr
  obtain ⟨c',hc',hresult⟩ := h i r hr
  have hlt := (List.getElem?_eq_some_iff.mp hc').1
  exact ⟨c',by rw [List.getElem?_append_left hlt]; exact hc',hresult⟩

private theorem Sound.append_existing (h : w.Sound) {c : ChargeCall ν} {d : UnreliableDownstream ν}
    {key : String} (hkey : c.idempotencyKey = some key) (hcharged : c.charged = false)
    (hmem : (key,c.result) ∈ w.downstream.appliedCharges)
    (htotal : d.ledgerTotalCents = w.downstream.ledgerTotalCents)
    (hcounter : d.chargeCounter = w.downstream.chargeCounter)
    (happlied : d.appliedCharges = w.downstream.appliedCharges)
    (hregistered : Registered { w with downstream := d, calls := w.calls ++ [c] }) :
    Sound { w with downstream := d, calls := w.calls ++ [c] } := by
  have hprovided := (h.registered.2 key (List.mem_map_of_mem hmem)).2
  have hkeys : providedKeys (w.calls ++ [c]) = providedKeys w.calls := by
    rw [providedKeys_append_some hkey,Finset.insert_eq_of_mem hprovided]
  refine ⟨hregistered,?_,?_,?_,resolved_append h.resolved,?_,?_,?_⟩
  · rw [hkeys]
    exact h.proper
  · rw [happlied]
    refine forall_append_next h.known fun k hk => ?_
    obtain rfl : key = k := by simpa [hkey] using hk
    exact hmem
  · rw [happlied]
    intro k r hr
    rw [firstCall_append_of_mem (h.registered.2 k (List.mem_map_of_mem hr)).2]
    exact h.first k r hr
  · intro k
    rw [chargesOf_append,hcharged]
    exact h.oncePerKey k
  · rw [keylessCalls_append_some hkey,hkeys,ledgerTotal,htotal]
    refine h.total.trans (congrArg _ (Finset.sum_congr rfl fun k hk => ?_))
    rw [firstAmount_append_of_mem hk]
  · rw [keylessCalls_append_some hkey,hkeys,chargesApplied,hcounter]
    exact h.applied

private theorem Sound.append_keyless (h : w.Sound) {c : ChargeCall ν} {d : UnreliableDownstream ν}
    (hkey : c.idempotencyKey = none)
    (htotal : d.ledgerTotalCents = w.downstream.ledgerTotalCents + c.amountCents)
    (hcounter : d.chargeCounter = w.downstream.chargeCounter + 1)
    (happlied : d.appliedCharges = w.downstream.appliedCharges)
    (hregistered : Registered { w with downstream := d, calls := w.calls ++ [c] }) :
    Sound { w with downstream := d, calls := w.calls ++ [c] } := by
  have hkeys : providedKeys (w.calls ++ [c]) = providedKeys w.calls :=
    providedKeys_append_none hkey
  refine ⟨hregistered,?_,?_,?_,resolved_append h.resolved,?_,?_,?_⟩
  · rw [hkeys]
    exact h.proper
  · rw [happlied]
    refine forall_append_next h.known fun k hk => ?_
    rw [hkey] at hk
    cases hk
  · rw [happlied]
    intro k r hr
    rw [firstCall_append_of_mem (h.registered.2 k (List.mem_map_of_mem hr)).2]
    exact h.first k r hr
  · intro k
    rw [chargesOf_append]
    simpa [hkey] using h.oncePerKey k
  · have hsum : ∑ k ∈ providedKeys w.calls, firstAmount (w.calls ++ [c]) k =
        ∑ k ∈ providedKeys w.calls, firstAmount w.calls k :=
      Finset.sum_congr rfl fun k hk => firstAmount_append_of_mem hk
    have hold := h.total
    rw [ledgerTotal] at hold
    rw [keylessCalls_append_none hkey,hkeys,ledgerTotal,htotal,hold,hsum,List.map_append,
      List.sum_append,List.map_singleton,List.sum_singleton,add_right_comm]
  · have hold := h.applied
    rw [chargesApplied] at hold
    rw [keylessCalls_append_none hkey,hkeys,chargesApplied,hcounter,hold,List.length_append]
    simp only [List.length_singleton]
    omega

private theorem Sound.append_new (h : w.Sound) {c : ChargeCall ν} {d : UnreliableDownstream ν}
    {key : String} (hkey : c.idempotencyKey = some key) (hne : key ≠ "")
    (hfresh : key ∉ w.downstream.appliedCharges.map Prod.fst)
    (hamount : c.result.amountCents = c.amountCents)
    (htotal : d.ledgerTotalCents = w.downstream.ledgerTotalCents + c.amountCents)
    (hcounter : d.chargeCounter = w.downstream.chargeCounter + 1)
    (happlied : d.appliedCharges = w.downstream.appliedCharges ++ [(key,c.result)])
    (hregistered : Registered { w with downstream := d, calls := w.calls ++ [c] }) :
    Sound { w with downstream := d, calls := w.calls ++ [c] } := by
  have hnew : key ∉ providedKeys w.calls := by
    intro hprovided
    obtain ⟨c',hc',hkey'⟩ := mem_providedKeys.mp hprovided
    exact hfresh (List.mem_map_of_mem (h.known c' hc' key hkey'))
  have hkeys : providedKeys (w.calls ++ [c]) = insert key (providedKeys w.calls) :=
    providedKeys_append_some hkey
  refine ⟨hregistered,?_,?_,?_,resolved_append h.resolved,?_,?_,?_⟩
  · rw [hkeys,Finset.mem_insert]
    rintro (heq | hempty)
    · exact hne heq.symm
    · exact h.proper hempty
  · rw [happlied]
    refine forall_append_next ?_ fun k hk => ?_
    · exact fun c' hc' k hk => List.mem_append_left _ (h.known c' hc' k hk)
    · obtain rfl : key = k := by simpa [hkey] using hk
      exact List.mem_append_right _ List.mem_cons_self
  · rw [happlied]
    intro k r hr
    rcases List.mem_append.mp hr with hold | hlast
    · rw [firstCall_append_of_mem (h.registered.2 k (List.mem_map_of_mem hold)).2]
      exact h.first k r hold
    · obtain ⟨rfl,rfl⟩ : k = key ∧ r = c.result := by simpa using hlast
      exact ⟨c,firstCall_append_new hnew hkey,rfl,hamount⟩
  · intro k
    rw [chargesOf_append]
    by_cases hk : key = k
    · subst hk
      rw [chargesOf_eq_zero hnew]
      split <;> omega
    · simpa [hkey,hk] using h.oncePerKey k
  · have hsum : ∑ k ∈ providedKeys w.calls, firstAmount (w.calls ++ [c]) k =
        ∑ k ∈ providedKeys w.calls, firstAmount w.calls k :=
      Finset.sum_congr rfl fun k hk => firstAmount_append_of_mem hk
    have hfirst : firstAmount (w.calls ++ [c]) key = c.amountCents := by
      rw [firstAmount,firstCall_append_new hnew hkey]
      rfl
    have hold := h.total
    rw [ledgerTotal] at hold
    rw [keylessCalls_append_some hkey,hkeys,Finset.sum_insert hnew,hfirst,hsum,ledgerTotal,htotal,
      hold,add_assoc,add_comm c.amountCents]
  · have hold := h.applied
    rw [chargesApplied] at hold
    rw [keylessCalls_append_some hkey,hkeys,Finset.card_insert_of_notMem hnew,chargesApplied,
      hcounter,hold]
    omega

theorem Sound.step (h : w.Sound) (hok : e.providesEmptyKey = false) (hstep : w.step e = some t) :
    t.Sound := by
  cases e with
  | charge atMs amountCents idempotencyKey =>
    have hregistered := charge_registered h.registered hstep
    cases hstep
    cases hexisting : w.downstream.existing idempotencyKey with
    | some existing =>
      obtain ⟨hresult,htotal,hcounter,happlied⟩ := charge_existing hexisting atMs amountCents
      obtain ⟨key,rfl,_,hmem⟩ := existing_some hexisting
      refine h.append_existing rfl ?_ ?_ htotal hcounter happlied hregistered
      · simp [hcounter]
      · rw [hresult]
        exact hmem
    | none =>
      obtain ⟨hamount,htotal,hcounter,happlied⟩ := charge_new hexisting atMs amountCents
      cases idempotencyKey with
      | none => exact h.append_keyless rfl htotal hcounter happlied hregistered
      | some key =>
        have hne : key ≠ "" := by
          rintro rfl
          simp [ChargeEvent.providesEmptyKey] at hok
        have hfresh := existing_none hexisting hne
        rw [register_new hne hfresh] at happlied
        exact h.append_new rfl hne hfresh hamount htotal hcounter happlied hregistered
  | respond call =>
    obtain ⟨c,hc,rfl⟩ := Option.map_eq_some_iff.mp hstep
    refine ⟨h.registered,h.proper,h.known,h.first,?_,h.oncePerKey,h.total,h.applied⟩
    intro i r hr
    by_cases hi : i = call
    · subst hi
      exact ⟨c,hc,by simpa [eq_comm] using hr⟩
    · exact h.resolved i r (by simpa [hi] using hr)
  | abandon call =>
    cases hstep
    exact ⟨h.registered,h.proper,h.known,h.first,h.resolved,h.oncePerKey,h.total,h.applied⟩

private theorem Sound.broken (h : w.Sound) (hempty : e.providesEmptyKey = true)
    (hstep : w.step e = some t) :
    t.Broken := by
  cases e with
  | charge atMs amountCents idempotencyKey =>
    obtain rfl : idempotencyKey = some "" := by simpa [ChargeEvent.providesEmptyKey] using hempty
    refine ⟨charge_registered h.registered hstep,?_⟩
    cases hstep
    exact mem_providedKeys.mpr ⟨_,List.mem_append_right _ List.mem_cons_self,rfl⟩
  | respond call => cases hempty
  | abandon call => cases hempty

theorem start_sound : Sound ({} : ChargeWorld ν) := by
  refine ⟨⟨.nil,nofun⟩,nofun,nofun,nofun,nofun,fun _ => Nat.zero_le 1,?_,rfl⟩
  exact (add_zero 0).symm

/-- Whatever is charged, retried and given up on, the accounts are as promised if and only if no
call provides the empty string as its key. -/
theorem charge_accounted_iff {w : ChargeWorld ν} {es : List (ChargeEvent ν)}
    (hrun : run step {} es = some w) :
    w.Accounted ↔ ∀ e ∈ es, e.providesEmptyKey = false := by
  have hkeep : ∀ (w : ChargeWorld ν) e t, w.Sound → e.providesEmptyKey = false →
      w.step e = some t → t.Sound := fun w e t hw => hw.step
  have hbreak : ∀ (w : ChargeWorld ν) e t, w.Sound → ¬ e.providesEmptyKey = false →
      w.step e = some t → t.Broken :=
    fun w e t hw hnot => hw.broken (Bool.not_eq_false _ |>.mp hnot)
  have hstuck : ∀ (w : ChargeWorld ν) e t, w.Broken → w.step e = some t → t.Broken :=
    fun w e t hw => hw.step
  rw [run_property_iff_along hkeep hbreak hstuck (fun _ => Sound.accounted)
    (fun _ => Broken.not_accounted) start_sound hrun]
  exact along_forall_iff hrun

/-- A call times out and is retried with the same key; another one has no key. -/
theorem retriedCharge_accounted :
    ∃ w : ChargeWorld Int, run step {} [.charge 0 1000 (some "order-1"),.abandon 0,
        .charge 50 1000 (some "order-1"),.charge 60 250 none,.respond 1,.respond 0] = some w ∧
      w.downstream.ledgerTotal = 1250 ∧ w.Accounted := by
  have hkeys : ∀ e ∈ [ChargeEvent.charge 0 (1000 : Int) (some "order-1"),.abandon 0,
      .charge 50 1000 (some "order-1"),.charge 60 250 none,.respond 1,.respond 0],
      e.providesEmptyKey = false := by
    decide
  exact ⟨_,rfl,rfl,(charge_accounted_iff rfl).mpr hkeys⟩

/-- With the empty string as its key, the retry charges a second time. -/
theorem emptyKey_chargedTwice :
    ¬ ∀ (es : List (ChargeEvent Int)) w, run step {} es = some w → w.Accounted := by
  intro h
  have haccounted := h [.charge 0 1000 (some ""),.abandon 0,.charge 50 1000 (some ""),.respond 1]
    _ rfl
  have htwice : 2 ≤ 1 := haccounted.oncePerKey ""
  omega

end ChargeWorld

end SystemsLab.Resilience
