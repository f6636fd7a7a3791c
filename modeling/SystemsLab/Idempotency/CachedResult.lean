import SystemsLab.Idempotency.Payments

/-!
# One result under one key

The row of a key is written by the call whose insert commits. A call that meets a row reads it,
and whatever it computed itself is never stored.
-/

namespace SystemsLab.Idempotency

variable {first w w' : PaymentsWorld} {n : Nat} {c : PaymentCall}

/-- How a call may end after the commit of its row. -/
inductive PaymentCall.Inserts (c : PaymentCall) : PaymentPhase → Prop
  | returned : Inserts c (.returned ⟨c.row,true,c.locallyComputed⟩)
  | replyLost : Inserts c .replyLost

inductive PaymentMove (w : PaymentsWorld) : PaymentsWorld → Prop
  | began (n : Nat) (c : PaymentCall) : w.call n = none → c.phase = .inserting →
      PaymentMove w { w.put n c with sequence := w.sequence + 1 }
  | conflicted (n : Nat) (c : PaymentCall) : w.call n = some c → c.phase = .inserting →
      c.attempt.idempotencyKey ∈ keys w.payments →
      PaymentMove w (w.put n { c with phase := .selecting })
  | claimed (n : Nat) (c : PaymentCall) : w.call n = some c → c.phase = .inserting →
      c.attempt.idempotencyKey ∉ keys w.payments → w.keyLock c.attempt.idempotencyKey = none →
      PaymentMove w { w.put n { c with phase := .committing } with
        keyLock := w.keyLock.acquire c.attempt.idempotencyKey n
        publicIdLock := w.publicIdLock.acquire c.publicId n }
  | selected (n : Nat) (c : PaymentCall) (row : PaymentRow) (rows : List PaymentRow) :
      w.call n = some c → c.phase = .selecting →
      getPaymentsByIdempotencyKey w.payments c.attempt.idempotencyKey = row::rows →
      PaymentMove w (w.put n { c with phase := .returned ⟨row,false,c.locallyComputed⟩ })
  | missed (n : Nat) (c : PaymentCall) (error : PaymentError) : w.call n = some c →
      c.phase = .selecting →
      getPaymentsByIdempotencyKey w.payments c.attempt.idempotencyKey = [] →
      PaymentMove w (w.abort n c error)
  | committed (n : Nat) (c : PaymentCall) (phase : PaymentPhase) : w.call n = some c →
      c.phase = .committing → c.Inserts phase → PaymentMove w (w.commit n c phase)
  | aborted (n : Nat) (c : PaymentCall) (error : PaymentError) : w.call n = some c →
      c.phase.hasEnded = false → (∀ message, error ≠ .conflictWithoutRow message) →
      PaymentMove w (w.abort n c error)

theorem insertPayment_move (hc : w.call n = some c) (hp : c.phase = .inserting)
    (h : w.insertPayment n c = some w') : PaymentMove w w' := by
  have hopen : c.phase.hasEnded = false := by
    rw [hp]
    rfl
  unfold PaymentsWorld.insertPayment at h
  dsimp only at h
  split at h
  · cases h
    exact .aborted n c _ hc hopen nofun
  split at h
  · cases h
    exact .aborted n c _ hc hopen nofun
  split at h
  · rename_i hmem
    cases h
    exact .conflicted n c hc hp hmem
  · rename_i hfresh
    split at h
    · cases h
    · rename_i hlock
      split at h
      · cases h
        exact .aborted n c _ hc hopen nofun
      split at h
      · cases h
      · cases h
        exact .claimed n c hc hp hfresh (Option.not_isSome_iff_eq_none.mp hlock)

theorem query_move (hc : w.call n = some c) (h : w.query n c = some w') : PaymentMove w w' := by
  unfold PaymentsWorld.query at h
  split at h
  · rename_i hp
    exact insertPayment_move hc hp h
  · rename_i hp
    cases h
    exact .committed n c _ hc hp .returned
  · rename_i hp
    split at h
    · rename_i row rows hrows
      cases h
      exact .selected n c row rows hc hp hrows
    · rename_i hrows
      cases h
      exact .missed n c _ hc hp hrows
  · cases h

theorem begin_move {attempt : CachedResultAttempt} {locallyComputed : Option ProcessorResult}
    {publicId : String} {createdAt : Int}
    (h : w.begin n attempt locallyComputed publicId createdAt = some w') : PaymentMove w w' := by
  unfold PaymentsWorld.begin at h
  split at h
  · cases h
  · rename_i hn
    cases h
    exact .began n _ hn rfl

theorem paymentStep_move {e : PaymentEvent} (h : paymentStep w e = some w') :
    PaymentMove w w' := by
  unfold paymentStep at h
  cases e with
  | performIdempotentPaymentAttempt n attempt publicId createdAt => exact begin_move h
  | performCachedResultPaymentAttempt n attempt locallyComputed publicId createdAt =>
    exact begin_move h
  | query n =>
    dsimp only at h
    split at h
    · rename_i c hc
      exact query_move hc h
    · cases h
  | loseReply n =>
    dsimp only at h
    split at h
    · rename_i c hc
      split at h
      · rename_i hp
        cases h
        exact .committed n c _ hc hp .replyLost
      · cases h
    · cases h
  | abort n =>
    dsimp only at h
    split at h
    · rename_i c hc
      split at h
      · cases h
      · rename_i hopen
        cases h
        exact .aborted n c _ hc (Bool.eq_false_iff.mpr hopen) nofun
    · cases h

/-- What a call knows about the table. -/
def PaymentCall.Valid (payments : List PaymentRow) (c : PaymentCall) : Prop :=
  match c.phase with
  | .selecting => c.attempt.idempotencyKey ∈ keys payments
  | .returned outcome => outcome.row ∈ payments ∧
      outcome.row.idempotencyKey = some c.attempt.idempotencyKey ∧
      outcome.locallyComputed = c.locallyComputed ∧
      (outcome.wasNewlyInserted = true → outcome.row = c.row)
  | .threw error => ∀ message, error ≠ .conflictWithoutRow message
  | .replyLost => c.row ∈ payments
  | _ => True

private theorem keys_append (payments : List PaymentRow) (row : PaymentRow) :
    keys (payments ++ [row]) = keys payments ++ row.idempotencyKey.toList := by
  unfold keys
  rw [List.filterMap_append]
  cases hkey : row.idempotencyKey with
  | none => simp [hkey]
  | some key => simp [hkey]

private theorem mem_keys {payments : List PaymentRow} {row : PaymentRow} {key : String}
    (hrow : row ∈ payments) (hkey : row.idempotencyKey = some key) : key ∈ keys payments :=
  List.mem_filterMap.mpr ⟨row,hrow,hkey⟩

private theorem PaymentCall.Valid.append {payments : List PaymentRow} (h : c.Valid payments)
    (row : PaymentRow) : c.Valid (payments ++ [row]) := by
  unfold Valid at h ⊢
  split at h
  · rw [keys_append]
    exact List.mem_append_left _ h
  · exact ⟨List.mem_append_left _ h.1,h.2⟩
  · exact h
  · exact List.mem_append_left _ h
  · trivial

private theorem valid_of_inserts {phase : PaymentPhase} {payments : List PaymentRow}
    (h : c.Inserts phase) : ({ c with phase } : PaymentCall).Valid (payments ++ [c.row]) := by
  have hmem : c.row ∈ payments ++ [c.row] := List.mem_append_right _ (List.mem_singleton_self _)
  cases h with
  | returned => exact ⟨hmem,rfl,rfl,fun _ => rfl⟩
  | replyLost => exact hmem

private theorem PaymentCall.Inserts.hasInserted {phase : PaymentPhase} (h : c.Inserts phase) :
    phase.hasInserted = true := by
  cases h with
  | returned => rfl
  | replyLost => rfl

private theorem PaymentCall.Valid.row_mem {payments : List PaymentRow} (h : c.Valid payments)
    (hc : c.phase.hasInserted = true) : c.row ∈ payments := by
  unfold Valid at h
  cases hp : c.phase with
  | returned outcome =>
    rw [hp] at h hc
    rw [← h.2.2.2 hc]
    exact h.1
  | replyLost =>
    rw [hp] at h
    exact h
  | _ =>
    rw [hp] at hc
    cases hc

private theorem rows_of_key {payments : List PaymentRow} (h : (keys payments).Nodup)
    {row : PaymentRow}
    {key : String} (hrow : row ∈ payments) (hkey : row.idempotencyKey = some key) :
    getPaymentsByIdempotencyKey payments key = [row] := by
  unfold getPaymentsByIdempotencyKey
  unfold keys at h
  induction payments with
  | nil => cases hrow
  | cons first payments ih =>
    rw [List.filterMap_cons] at h
    cases hrow with
    | head =>
      rw [hkey,List.nodup_cons] at h
      rw [List.filter_cons,if_pos (by simpa using hkey)]
      congr 1
      rw [List.filter_eq_nil_iff]
      intro other hother hsame
      exact h.1 (List.mem_filterMap.mpr ⟨other,hother,by simpa using hsame⟩)
    | tail _ hrow =>
      have hne : first.idempotencyKey ≠ some key := by
        intro heq
        rw [heq,List.nodup_cons] at h
        exact h.1 (List.mem_filterMap.mpr ⟨row,hrow,hkey⟩)
      rw [List.filter_cons,if_neg (by simpa using hne)]
      refine ih ?_ hrow
      cases hfirst : first.idempotencyKey with
      | none =>
        rw [hfirst] at h
        exact h
      | some other =>
        rw [hfirst] at h
        exact (List.nodup_cons.mp h).2

structure PaymentsWorld.Recorded (first w : PaymentsWorld) : Prop where
  index : UniqueIndex (keys w.payments) w.keyLock (holdings w.call PaymentCall.claimedKey)
  kept : ∀ row ∈ first.payments, row ∈ w.payments
  written : ∀ row ∈ w.payments, row ∈ first.payments ∨
    ∃ n c, w.call n = some c ∧ c.phase.hasInserted = true ∧ row = c.row
  valid : ∀ n c, w.call n = some c → c.Valid w.payments
  fresh : ∀ n c, w.call n = some c → c.phase.hasInserted = true →
    c.attempt.idempotencyKey ∉ keys first.payments
  once : ∀ m n c d, w.call m = some c → w.call n = some d → c.phase.hasInserted = true →
    d.phase.hasInserted = true → c.attempt.idempotencyKey = d.attempt.idempotencyKey → m = n

namespace PaymentsWorld.Recorded

theorem keep (h : first.Recorded w) (hcall : w'.call = Function.update w.call n (some c))
    (hpayments : w'.payments = w.payments)
    (hindex : UniqueIndex (keys w.payments) w'.keyLock
      (holdings (Function.update w.call n (some c)) PaymentCall.claimedKey))
    (hopen : ∀ d, w.call n = some d → d.phase.hasInserted = false)
    (hc : c.phase.hasInserted = false) (hvalid : c.Valid w.payments) : first.Recorded w' := by
  have hold : ∀ m d, w'.call m = some d → d.phase.hasInserted = true → w.call m = some d := by
    intro m d hd hinserted
    rw [hcall] at hd
    rcases update_eq_some hd with ⟨rfl,rfl⟩ | ⟨_,hold⟩
    · rw [hc] at hinserted
      cases hinserted
    · exact hold
  refine ⟨?_,?_,?_,?_,?_,?_⟩
  · rw [hcall,hpayments]
    exact hindex
  · rw [hpayments]
    exact h.kept
  · intro row hrow
    rw [hpayments] at hrow
    rcases h.written row hrow with hfirst | ⟨m,d,hd,hinserted,heq⟩
    · exact .inl hfirst
    · refine .inr ⟨m,d,?_,hinserted,heq⟩
      rw [hcall,Function.update_of_ne]
      · exact hd
      · rintro rfl
        rw [hopen d hd] at hinserted
        cases hinserted
  · intro m d hd
    rw [hcall] at hd
    rw [hpayments]
    rcases update_eq_some hd with ⟨rfl,rfl⟩ | ⟨_,hold⟩
    · exact hvalid
    · exact h.valid m d hold
  · intro m d hd hinserted
    exact h.fresh m d (hold m d hd hinserted) hinserted
  · intro m k d e hd he hinserted hinserted'
    exact h.once m k d e (hold m d hd hinserted) (hold k e he hinserted') hinserted hinserted'

theorem commit (h : first.Recorded w) {phase : PaymentPhase} (hc : w.call n = some c)
    (hp : c.phase = .committing) (hphase : c.Inserts phase) :
    first.Recorded (w.commit n c phase) := by
  have hclaimed : c.claimedKey = some c.attempt.idempotencyKey := by
    unfold PaymentCall.claimedKey
    rw [hp]
  have hreleased : ({ c with phase } : PaymentCall).claimedKey = none := by
    cases hphase with
    | returned => rfl
    | replyLost => rfl
  have hnew : c.attempt.idempotencyKey ∉ keys w.payments :=
    h.index.fresh n _ ((holdings_eq hc).trans hclaimed)
  have hother : ∀ m d, w.call m = some d → d.phase.hasInserted = true →
      d.attempt.idempotencyKey ≠ c.attempt.idempotencyKey := by
    intro m d hd hinserted heq
    exact hnew (heq ▸ mem_keys ((h.valid m d hd).row_mem hinserted) rfl)
  refine ⟨?_,?_,?_,?_,?_,?_⟩
  · have hindex := h.index.commitCall hc hclaimed hreleased
    show UniqueIndex (keys (w.payments ++ [c.row])) _ _
    rw [keys_append]
    exact hindex
  · intro row hrow
    exact List.mem_append_left _ (h.kept row hrow)
  · intro row hrow
    rcases List.mem_append.mp hrow with hold | hlast
    · rcases h.written row hold with hfirst | ⟨m,d,hd,hinserted,heq⟩
      · exact .inl hfirst
      · refine .inr ⟨m,d,?_,hinserted,heq⟩
        refine (Function.update_of_ne ?_ _ _).trans hd
        rintro rfl
        rw [hc] at hd
        cases hd
        rw [hp] at hinserted
        cases hinserted
    · exact .inr ⟨n,_,Function.update_self _ _ _,hphase.hasInserted,List.mem_singleton.mp hlast⟩
  · intro m d hd
    rcases update_eq_some hd with ⟨rfl,rfl⟩ | ⟨_,hold⟩
    · exact valid_of_inserts hphase
    · exact (h.valid m d hold).append _
  · intro m d hd hinserted
    rcases update_eq_some hd with ⟨rfl,rfl⟩ | ⟨_,hold⟩
    · intro hmem
      obtain ⟨row,hrow,hkey⟩ := List.mem_filterMap.mp hmem
      exact hnew (mem_keys (h.kept row hrow) hkey)
    · exact h.fresh m d hold hinserted
  · intro m k d e hd he hinserted hinserted' hkey
    rcases update_eq_some hd with ⟨rfl,rfl⟩ | ⟨_,hold⟩
    · rcases update_eq_some he with ⟨rfl,rfl⟩ | ⟨_,hold'⟩
      · rfl
      · exact absurd hkey.symm (hother k e hold' hinserted')
    · rcases update_eq_some he with ⟨rfl,rfl⟩ | ⟨_,hold'⟩
      · exact absurd hkey (hother m d hold hinserted)
      · exact h.once m k d e hold hold' hinserted hinserted' hkey

end PaymentsWorld.Recorded

private theorem hasInserted_of_open {phase : PaymentPhase} (h : phase.hasEnded = false) :
    phase.hasInserted = false := by
  cases phase with
  | returned outcome => cases h
  | replyLost => cases h
  | _ => rfl

private theorem claimedKey_of_ne (hp : c.phase ≠ .committing) : c.claimedKey = none := by
  unfold PaymentCall.claimedKey
  split
  · contradiction
  · rfl

namespace PaymentsWorld.Recorded

theorem start (h : first.Idle) : first.Recorded first := by
  refine ⟨?_,fun _ => id,fun row hrow => .inl hrow,?_,?_,?_⟩
  · rw [h.keyLock,h.calls]
    exact ⟨h.keys,LockTable.held_none,fun _ _ hk => nomatch hk⟩
  · intro n c hc
    rw [h.calls] at hc
    cases hc
  · intro n c hc
    rw [h.calls] at hc
    cases hc
  · intro m n c d hc
    rw [h.calls] at hc
    cases hc

private theorem keepCall (h : first.Recorded w) {d : PaymentCall} (hd : w.call n = some d)
    (hp : d.phase ≠ .committing) (hinserted : d.phase.hasInserted = false)
    (hcall : w'.call = Function.update w.call n (some c)) (hpayments : w'.payments = w.payments)
    (hlock : w'.keyLock = w.keyLock) (hphase : c.phase ≠ .committing)
    (hc : c.phase.hasInserted = false) (hvalid : c.Valid w.payments) : first.Recorded w' := by
  refine h.keep hcall hpayments ?_ (forall_of_eq_some hd hinserted) hc hvalid
  rw [hlock]
  refine h.index.keepCall ?_
  rw [holdings_eq hd,claimedKey_of_ne hp,claimedKey_of_ne hphase]

private theorem aborted (h : first.Recorded w) {error : PaymentError} (hc : w.call n = some c)
    (hinserted : c.phase.hasInserted = false)
    (herror : ∀ message, error ≠ .conflictWithoutRow message) :
    first.Recorded (w.abort n c error) := by
  refine h.keep rfl rfl ?_ (forall_of_eq_some hc hinserted) rfl herror
  exact h.index.rollbackCall hc rfl

theorem move (h : first.Recorded w) (hm : PaymentMove w w') : first.Recorded w' := by
  cases hm with
  | began n c hn hp =>
    have hkey : c.claimedKey = holdings w.call PaymentCall.claimedKey n := by
      rw [holdings_of_none hn,claimedKey_of_ne (by rw [hp]; nofun)]
    refine h.keep (n := n) (c := c) rfl rfl (h.index.keepCall hkey) ?_ ?_ ?_
    · intro d hd
      rw [hn] at hd
      cases hd
    · rw [hp]
      rfl
    · unfold PaymentCall.Valid
      rw [hp]
      trivial
  | conflicted n c hc hp hmem =>
    refine h.keepCall hc ?_ ?_ rfl rfl rfl nofun rfl hmem
    · rw [hp]
      nofun
    · rw [hp]
      rfl
  | claimed n c hc hp hfresh hlock =>
    have hnone : c.claimedKey = none := claimedKey_of_ne (by rw [hp]; nofun)
    have hopen : c.phase.hasInserted = false := by
      rw [hp]
      rfl
    refine h.keep rfl rfl ?_ (forall_of_eq_some hc hopen) rfl trivial
    exact h.index.insertCall hc hnone hlock hfresh rfl
  | selected n c row rows hc hp hrows =>
    have hmem : row ∈ getPaymentsByIdempotencyKey w.payments c.attempt.idempotencyKey := by
      rw [hrows]
      exact List.mem_cons_self
    obtain ⟨hrow,hkey⟩ := List.mem_filter.mp hmem
    refine h.keepCall hc ?_ ?_ rfl rfl rfl nofun rfl ⟨hrow,of_decide_eq_true hkey,rfl,nofun⟩
    · rw [hp]
      nofun
    · rw [hp]
      rfl
  | missed n c error hc hp hrows =>
    have hvalid := h.valid n c hc
    unfold PaymentCall.Valid at hvalid
    rw [hp] at hvalid
    obtain ⟨row,hrow,hkey⟩ := List.mem_filterMap.mp hvalid
    rw [rows_of_key h.index.nodup hrow hkey] at hrows
    cases hrows
  | committed n c phase hc hp hphase => exact h.commit hc hp hphase
  | aborted n c error hc hopen herror => exact h.aborted hc (hasInserted_of_open hopen) herror

end PaymentsWorld.Recorded

/-- `inserter` is about the keys that were not in the table at first. -/
structure PaymentsWorld.SameResult (first w : PaymentsWorld) : Prop where
  oneRow : ∀ key, (getPaymentsByIdempotencyKey w.payments key).length ≤ 1
  outcome : ∀ n c outcome, w.call n = some c → c.phase = .returned outcome →
    getPaymentsByIdempotencyKey w.payments c.attempt.idempotencyKey = [outcome.row] ∧
      outcome.locallyComputed = c.locallyComputed
  newlyOnce : ∀ m n c d outcome outcome', w.call m = some c → w.call n = some d →
    c.phase = .returned outcome → d.phase = .returned outcome' →
    outcome.wasNewlyInserted = true → outcome'.wasNewlyInserted = true →
    c.attempt.idempotencyKey = d.attempt.idempotencyKey → m = n
  inserter : ∀ n c outcome, w.call n = some c → c.phase = .returned outcome →
    c.attempt.idempotencyKey ∉ keys first.payments → ∃! m, ∃ d, w.call m = some d ∧
      d.attempt.idempotencyKey = c.attempt.idempotencyKey ∧
      (d.phase = .returned ⟨outcome.row,true,d.locallyComputed⟩ ∨ d.phase = .replyLost)
  computed : ∀ m d, w.call m = some d → d.phase.hasInserted = true →
    getPaymentsByIdempotencyKey w.payments d.attempt.idempotencyKey = [d.row]
  answered : ∀ n c message, w.call n = some c →
    c.phase ≠ .threw (.conflictWithoutRow message)

private theorem length_rows_of_key {payments : List PaymentRow} (h : (keys payments).Nodup)
    (key : String) : (getPaymentsByIdempotencyKey payments key).length ≤ 1 := by
  cases hrows : getPaymentsByIdempotencyKey payments key with
  | nil => exact Nat.zero_le _
  | cons row rows =>
    have hmem : row ∈ getPaymentsByIdempotencyKey payments key := by
      rw [hrows]
      exact List.mem_cons_self
    obtain ⟨hrow,hkey⟩ := List.mem_filter.mp hmem
    rw [← hrows,rows_of_key h hrow (of_decide_eq_true hkey)]
    rfl

namespace PaymentsWorld.Recorded

private theorem outcome (h : first.Recorded w) {outcome : CachedResultOutcome}
    (hc : w.call n = some c)
    (hp : c.phase = .returned outcome) : outcome.row ∈ w.payments ∧
      outcome.row.idempotencyKey = some c.attempt.idempotencyKey ∧
      outcome.locallyComputed = c.locallyComputed ∧
      (outcome.wasNewlyInserted = true → outcome.row = c.row) := by
  have hvalid := h.valid n c hc
  unfold PaymentCall.Valid at hvalid
  rw [hp] at hvalid
  exact hvalid

private theorem computed (h : first.Recorded w) (hc : w.call n = some c)
    (hinserted : c.phase.hasInserted = true) :
    getPaymentsByIdempotencyKey w.payments c.attempt.idempotencyKey = [c.row] :=
  rows_of_key h.index.nodup ((h.valid n c hc).row_mem hinserted) rfl

private theorem inserter (h : first.Recorded w) {outcome : CachedResultOutcome}
    (hc : w.call n = some c)
    (hp : c.phase = .returned outcome) (hfresh : c.attempt.idempotencyKey ∉ keys first.payments) :
    ∃! m, ∃ d, w.call m = some d ∧ d.attempt.idempotencyKey = c.attempt.idempotencyKey ∧
      (d.phase = .returned ⟨outcome.row,true,d.locallyComputed⟩ ∨ d.phase = .replyLost) := by
  obtain ⟨hrow,hkey,_⟩ := h.outcome hc hp
  rcases h.written _ hrow with hfirst | ⟨m,d,hd,hinserted,heq⟩
  · exact absurd (mem_keys hfirst hkey) hfresh
  have hsame : d.attempt.idempotencyKey = c.attempt.idempotencyKey := by
    rw [heq] at hkey
    exact Option.some.inj hkey
  refine ⟨m,⟨d,hd,hsame,?_⟩,?_⟩
  · cases hphase : d.phase with
    | returned other =>
      rw [hphase] at hinserted
      obtain ⟨_,_,hlocal,hother⟩ := h.outcome hd hphase
      obtain ⟨row,newly,locallyComputed⟩ := other
      obtain rfl : newly = true := hinserted
      obtain rfl : row = d.row := hother rfl
      obtain rfl : locallyComputed = d.locallyComputed := hlocal
      rw [heq]
      exact .inl rfl
    | replyLost => exact .inr rfl
    | _ =>
      rw [hphase] at hinserted
      cases hinserted
  · rintro k ⟨e,he,hesame,hephase⟩
    refine h.once k m e d he hd ?_ hinserted (hesame.trans hsame.symm)
    rcases hephase with hreturned | hlost
    · rw [hreturned]
      rfl
    · rw [hlost]
      rfl

end PaymentsWorld.Recorded

theorem performCachedResultPaymentAttempt_sameResult (hfirst : first.Idle)
    (h : Reachable paymentStep (· = first) w) : first.SameResult w := by
  have hw : first.Recorded w := by
    refine h.invariant ?_ fun _ _ _ hc _ hs => hc.move (paymentStep_move hs)
    rintro _ rfl
    exact .start hfirst
  refine ⟨length_rows_of_key hw.index.nodup,?_,?_,fun n c outcome => hw.inserter,
    fun m d => hw.computed,?_⟩
  · intro n c outcome hc hp
    obtain ⟨hrow,hkey,hlocal,_⟩ := hw.outcome hc hp
    exact ⟨rows_of_key hw.index.nodup hrow hkey,hlocal⟩
  · intro m n c d outcome outcome' hc hd hp hp' hnewly hnewly'
    refine hw.once m n c d hc hd ?_ ?_
    · rw [hp]
      exact hnewly
    · rw [hp']
      exact hnewly'
  · intro n c message hc hp
    have hvalid := hw.valid n c hc
    unfold PaymentCall.Valid at hvalid
    rw [hp] at hvalid
    exact hvalid message rfl

/-- Three calls under one key, each with its own result: the first one fails with its insert done,
the second one is stored, and the third one reads what was stored. -/
def failingWinner : List PaymentEvent :=
  let attempt : CachedResultAttempt := { idempotencyKey := "k", amountCents := 12500, payee := "m" }
  [.performCachedResultPaymentAttempt 0 attempt ⟨"A1",393⟩ "u0" 10,
    .performCachedResultPaymentAttempt 1 attempt ⟨"B2",395⟩ "u1" 11,
    .performCachedResultPaymentAttempt 2 attempt ⟨"C3",394⟩ "u2" 12,
    .performIdempotentPaymentAttempt 3 { attempt with amountCents := 0 } "u3" 13,.query 0,.query 3,
    .abort 0,.query 1,.query 1,.query 2,.query 2]

theorem failingWinner_sameResult :
    ∃ w, run paymentStep {} failingWinner = some w ∧ PaymentsWorld.SameResult {} w ∧
      (w.call 2).map (fun c => (c.phase.hasInserted,c.row.confirmationCode)) =
        some (false,some "C3") ∧
      w.payments.map PaymentRow.confirmationCode = [some "B2"] ∧
      (w.call 2).map PaymentCall.phase =
        w.payments.head?.map fun row => .returned ⟨row,false,some ⟨"C3",394⟩⟩ := by
  have hidle : PaymentsWorld.Idle {} := ⟨.nil,rfl,rfl,rfl⟩
  have hrun : (run paymentStep {} failingWinner).any (fun w =>
      decide ((w.call 2).map (fun c => (c.phase.hasInserted,c.row.confirmationCode)) =
        some (false,some "C3")) &&
      decide (w.payments.map PaymentRow.confirmationCode = [some "B2"] ∧
        (w.call 2).map PaymentCall.phase =
          w.payments.head?.map fun row => .returned ⟨row,false,some ⟨"C3",394⟩⟩)) = true := by
    decide +kernel
  obtain ⟨w,hw,hresult,hreachable⟩ := exists_run_of_any hrun
  rw [Bool.and_eq_true,decide_eq_true_eq,decide_eq_true_eq] at hresult
  exact ⟨w,hw,performCachedResultPaymentAttempt_sameResult hidle hreachable,hresult⟩

end SystemsLab.Idempotency
