import SystemsLab.Inbox.IdempotentConsumer

/-!
# A message is applied once

The claim of a message and its credit are in the tables together or not at all. While a
delivery holds the claim, others for the same id wait; when it is gone they find the row, or
they claim the message themselves.
-/

namespace SystemsLab.Inbox

open RowVersions

variable {first w w' : InboxWorld}

inductive InboxMove (w : InboxWorld) : InboxWorld → Prop
  | started (n : Nat) (message : CreditAppliedMessage) : w.call n = none →
      InboxMove w (w.put n { message })
  | conflicted (n : Nat) (d : Delivery) : w.call n = some d → d.phase = .inserting →
      d.message.messageId ∈ w.processed.map ProcessedMessage.messageId →
      InboxMove w (w.put n { d with phase := .rollingBack })
  | claimed (n : Nat) (d : Delivery) : w.call n = some d → d.phase = .inserting →
      d.message.messageId ∉ w.processed.map ProcessedMessage.messageId →
      w.messageLock d.message.messageId = none →
      InboxMove w { w.put n { d with phase := .updating } with
        messageLock := w.messageLock.acquire d.message.messageId n }
  | updated (n : Nat) (d : Delivery) (balance : Int) : w.call n = some d →
      d.phase = .updating → (w.accounts d.message.accountId).version n = some balance →
      InboxMove w { w.put n { d with phase := .committing } with
        accounts := w.accounts.put n d.message.accountId (balance + d.message.amountCents) }
  | skipped (n : Nat) (d : Delivery) : w.call n = some d → d.phase = .rollingBack →
      InboxMove w (w.put n { d with phase := .returned .duplicate })
  | committed (n : Nat) (d : Delivery) (phase : DeliveryPhase) : w.call n = some d →
      d.phase = .committing → phase.hasCommitted = true → InboxMove w (w.commit n d phase)
  | aborted (n : Nat) (d : Delivery) : w.call n = some d → d.phase.hasEnded = false →
      InboxMove w (w.abort n d)

theorem insertMessage_move {n : Nat} {d : Delivery} (hd : w.call n = some d)
    (hp : d.phase = .inserting) (h : w.insertMessage n d = some w') : InboxMove w w' := by
  have hopen : d.phase.hasEnded = false := by
    rw [hp]
    rfl
  unfold InboxWorld.insertMessage at h
  dsimp only at h
  split at h
  · cases h
    exact .aborted n d hd hopen
  · split at h
    · rename_i hmem
      cases h
      exact .conflicted n d hd hp hmem
    · rename_i hfresh
      split at h
      · cases h
      · rename_i hlock
        split at h
        · cases h
          exact .claimed n d hd hp hfresh (Option.not_isSome_iff_eq_none.mp hlock)
        · cases h
          exact .aborted n d hd hopen

theorem updateBalance_move {n : Nat} {d : Delivery} (hd : w.call n = some d)
    (hp : d.phase = .updating) (h : w.updateBalance n d = some w') : InboxMove w w' := by
  unfold InboxWorld.updateBalance at h
  split at h
  · cases h
  · rename_i balance hversion
    dsimp only at h
    split at h
    · cases h
      exact .updated n d balance hd hp hversion
    · cases h
      exact .aborted n d hd (by rw [hp]; rfl)

theorem applyIdempotent_move {n : Nat} {d : Delivery} (hd : w.call n = some d)
    (h : w.applyIdempotent n d = some w') : InboxMove w w' := by
  unfold InboxWorld.applyIdempotent at h
  split at h
  · rename_i hp
    exact insertMessage_move hd hp h
  · rename_i hp
    exact updateBalance_move hd hp h
  · rename_i hp
    cases h
    exact .committed n d _ hd hp rfl
  · rename_i hp
    cases h
    exact .skipped n d hd hp
  · cases h

theorem inboxStep_move {e : InboxEvent} (h : inboxStep w e = some w') : InboxMove w w' := by
  unfold inboxStep at h
  cases e with
  | deliver n message =>
    dsimp only at h
    split at h
    · cases h
    · rename_i hn
      cases h
      exact .started n message hn
  | query n =>
    dsimp only at h
    split at h
    · rename_i d hd
      exact applyIdempotent_move hd h
    · cases h
  | loseReply n =>
    dsimp only at h
    split at h
    · rename_i d hd
      split at h
      · rename_i hp
        cases h
        exact .committed n d _ hd hp rfl
      · cases h
    · cases h
  | abort n =>
    dsimp only at h
    split at h
    · rename_i d hd
      split at h
      · cases h
      · rename_i hopen
        cases h
        exact .aborted n d hd (Bool.eq_false_iff.mpr hopen)
    · cases h

/-- What the open transaction of a delivery has added to an account. -/
def Delivery.pending (d : Delivery) (accountId : Nat) : Int :=
  if d.phase = .committing ∧ accountId = d.message.accountId then d.message.amountCents else 0

def InboxWorld.posted (first w : InboxWorld) (accountId : Nat) : Int :=
  credited w.processed accountId - credited first.processed accountId

private theorem pending_of_ne {d : Delivery} (hp : d.phase ≠ .committing) (k : Nat) :
    d.pending k = 0 :=
  if_neg fun h => hp h.1

private theorem credited_append (rows : List ProcessedMessage) (message : CreditAppliedMessage)
    (k : Nat) :
    credited (rows ++ [message.row]) k =
      credited rows k + if k = message.accountId then message.amountCents else 0 := by
  unfold credited
  rw [List.filter_append,List.map_append,List.sum_append]
  congr 1
  by_cases hk : k = message.accountId
  · subst hk
    simp [CreditAppliedMessage.row]
  · have hne : message.row.accountId ≠ k := Ne.symm hk
    simp [hne,hk]

/-- The insert of the delivery met a committed row. -/
def DeliveryPhase.foundRow : DeliveryPhase → Bool
  | .rollingBack => true
  | .returned .duplicate => true
  | _ => false

/-- The message of `d` was committed: before the run, or by another delivery. -/
def InboxWorld.Delivered (first w : InboxWorld) (n : Nat) (d : Delivery) : Prop :=
  d.message.messageId ∈ first.processed.map ProcessedMessage.messageId ∨
    ∃ m e, m ≠ n ∧ w.call m = some e ∧ e.phase.hasCommitted = true ∧
      e.message.messageId = d.message.messageId

structure InboxWorld.Recorded (first w : InboxWorld) : Prop where
  written : ∀ row ∈ w.processed, row ∈ first.processed ∨
    ∃ n d, w.call n = some d ∧ d.phase.hasCommitted = true ∧ row = d.message.row
  committed : ∀ n d, w.call n = some d → d.phase.hasCommitted = true →
    d.message.row ∈ w.processed
  once : ∀ m n d e, w.call m = some d → w.call n = some e → d.phase.hasCommitted = true →
    e.phase.hasCommitted = true → d.message.messageId = e.message.messageId → m = n
  skipped : ∀ n d, w.call n = some d →
    d.phase.foundRow = true → first.Delivered w n d

theorem call_of_committed {n m : Nat} {d e : Delivery}
    (hopen : ∀ c, w.call n = some c → c.phase.hasCommitted = false)
    (he : w.call m = some e) (hcommitted : e.phase.hasCommitted = true) :
    Function.update w.call n (some d) m = some e := by
  rw [Function.update_of_ne]
  · exact he
  · rintro rfl
    rw [hopen e he] at hcommitted
    cases hcommitted

private theorem InboxWorld.Delivered.update {n m : Nat} {d e : Delivery} (h : first.Delivered w m e)
    (hopen : ∀ c, w.call n = some c → c.phase.hasCommitted = false)
    (hcall : w'.call = Function.update w.call n (some d)) : first.Delivered w' m e := by
  rcases h with hfirst | ⟨k,c,hk,hc,hcommitted,hid⟩
  · exact .inl hfirst
  · refine .inr ⟨k,c,hk,?_,hcommitted,hid⟩
    rw [hcall]
    exact call_of_committed hopen hc hcommitted

namespace InboxWorld.Recorded

theorem keep (h : first.Recorded w) {n : Nat} {d : Delivery}
    (hopen : ∀ c, w.call n = some c → c.phase.hasCommitted = false)
    (hcall : w'.call = Function.update w.call n (some d)) (hprocessed : w'.processed = w.processed)
    (hd : d.phase.hasCommitted = false)
    (hskipped : d.phase.foundRow = true →
      first.Delivered w n d) : first.Recorded w' := by
  have hothers : ∀ m c, w'.call m = some c → c.phase.hasCommitted = true →
      w.call m = some c := by
    intro m c hc hcommitted
    rw [hcall] at hc
    rcases update_eq_some hc with ⟨rfl,rfl⟩ | ⟨_,hold⟩
    · rw [hd] at hcommitted
      cases hcommitted
    · exact hold
  refine ⟨?_,?_,?_,?_⟩
  · intro row hrow
    rw [hprocessed] at hrow
    rcases h.written row hrow with hfirst | ⟨m,c,hc,hcommitted,heq⟩
    · exact .inl hfirst
    · refine .inr ⟨m,c,?_,hcommitted,heq⟩
      rw [hcall]
      exact call_of_committed hopen hc hcommitted
  · intro m c hc hcommitted
    rw [hprocessed]
    exact h.committed m c (hothers m c hc hcommitted) hcommitted
  · intro m k c e hc he hcommitted hcommitted'
    exact h.once m k c e (hothers m c hc hcommitted) (hothers k e he hcommitted') hcommitted
      hcommitted'
  · intro m c hc hphase
    rw [hcall] at hc
    rcases update_eq_some hc with ⟨rfl,rfl⟩ | ⟨_,hold⟩
    · exact (hskipped hphase).update hopen hcall
    · exact (h.skipped m c hold hphase).update hopen hcall

theorem commit (h : first.Recorded w) {n : Nat} {d : Delivery} {phase : DeliveryPhase}
    (hd : w.call n = some d) (hp : d.phase = .committing) (hphase : phase.hasCommitted = true)
    (hfresh : d.message.messageId ∉ w.processed.map ProcessedMessage.messageId) :
    first.Recorded (w.commit n d phase) := by
  have hopen : ∀ c, w.call n = some c → c.phase.hasCommitted = false :=
    forall_of_eq_some hd (by rw [hp]; rfl)
  have hmem : d.message.row ∈ w.processed ++ [d.message.row] :=
    List.mem_append_right _ (List.mem_singleton_self _)
  have hother : ∀ m e, w.call m = some e → e.phase.hasCommitted = true →
      e.message.messageId ≠ d.message.messageId := by
    intro m e he hcommitted heq
    have hrow := List.mem_map_of_mem (f := ProcessedMessage.messageId)
      (h.committed m e he hcommitted)
    exact hfresh (heq ▸ hrow)
  refine ⟨?_,?_,?_,?_⟩
  · intro row hrow
    rcases List.mem_append.mp hrow with hold | hnew
    · rcases h.written row hold with hfirst | ⟨m,c,hc,hcommitted,heq⟩
      · exact .inl hfirst
      · exact .inr ⟨m,c,call_of_committed hopen hc hcommitted,hcommitted,heq⟩
    · exact .inr ⟨n,{ d with phase },Function.update_self _ _ _,hphase,
        List.mem_singleton.mp hnew⟩
  · intro m c hc hcommitted
    rcases update_eq_some hc with ⟨rfl,rfl⟩ | ⟨_,hold⟩
    · exact hmem
    · exact List.mem_append_left _ (h.committed m c hold hcommitted)
  · intro m k c e hc he hcommitted hcommitted' hid
    rcases update_eq_some hc with ⟨rfl,rfl⟩ | ⟨_,hold⟩
    · rcases update_eq_some he with ⟨rfl,rfl⟩ | ⟨_,hold'⟩
      · rfl
      · exact absurd hid.symm (hother k e hold' hcommitted')
    · rcases update_eq_some he with ⟨rfl,rfl⟩ | ⟨_,hold'⟩
      · exact absurd hid (hother m c hold hcommitted)
      · exact h.once m k c e hold hold' hcommitted hcommitted' hid
  · intro m c hc hskipped
    rcases update_eq_some hc with ⟨rfl,rfl⟩ | ⟨_,hold⟩
    · have hphase' : phase.foundRow = true := hskipped
      cases phase with
      | returned outcome => cases outcome <;> contradiction
      | _ => contradiction
    · exact (h.skipped m c hold hskipped).update hopen rfl

end InboxWorld.Recorded

structure InboxWorld.Consistent (first w : InboxWorld) : Prop where
  ids : UniqueIndex (w.processed.map ProcessedMessage.messageId) w.messageLock
    (holdings w.call Delivery.claimed)
  books : Books first.accounts w.accounts (first.posted w)
    (pendingOf w.call Delivery.pending)
  recorded : first.Recorded w

namespace InboxWorld.Consistent

theorem start (h : first.Idle) : first.Consistent first := by
  refine ⟨?_,?_,?_⟩
  · rw [h.locks,h.calls]
    exact ⟨h.nodup,LockTable.held_none,fun _ _ hk => nomatch hk⟩
  · have hposted : first.posted first = fun _ => 0 := funext fun _ => sub_self _
    rw [hposted,h.calls]
    exact .start h.rows
  · refine ⟨fun row hrow => .inl hrow,?_,?_,?_⟩
    · intro n d hd
      rw [h.calls] at hd
      cases hd
    · intro m n d e hd
      rw [h.calls] at hd
      cases hd
    · intro n d hd
      rw [h.calls] at hd
      cases hd

private theorem claimed_of_phase {d : Delivery} {phase : DeliveryPhase} (hp : d.phase = phase) :
    d.claimed = Delivery.claimed { d with phase } := by
  rw [← hp]

theorem keep (h : first.Consistent w) {n : Nat} {d : Delivery}
    (hopen : ∀ c, w.call n = some c → c.phase.hasCommitted = false ∧ c.phase ≠ .committing)
    (hclaimed : d.claimed = holdings w.call Delivery.claimed n)
    (hd : d.phase.hasCommitted = false) (hp : d.phase ≠ .committing)
    (hskipped : d.phase.foundRow = true →
      first.Delivered w n d) : first.Consistent (w.put n d) := by
  refine ⟨?_,?_,?_⟩
  · exact h.ids.keepCall hclaimed
  · apply h.books.keepCall
    intro k
    rw [pending_of_ne hp]
    unfold pendingOf
    cases hc : w.call n with
    | none => rfl
    | some c => exact (pending_of_ne (hopen c hc).2 k).symm
  · exact h.recorded.keep (fun c hc => (hopen c hc).1) rfl rfl hd hskipped

/-- The row that an insert has met is from before, or another delivery has committed it. -/
theorem delivered_of_conflict (h : first.Consistent w) {n : Nat} {d d' : Delivery}
    (hd : w.call n = some d) (hopen : d.phase.hasCommitted = false)
    (hmessage : d'.message = d.message)
    (hmem : d.message.messageId ∈ w.processed.map ProcessedMessage.messageId) :
    first.Delivered w n d' := by
  obtain ⟨row,hrow,hid⟩ := List.mem_map.mp hmem
  rcases h.recorded.written row hrow with hfirst | ⟨m,e,he,hcommitted,heq⟩
  · left
    rw [hmessage,← hid]
    exact List.mem_map_of_mem hfirst
  · refine .inr ⟨m,e,?_,he,hcommitted,?_⟩
    · rintro rfl
      rw [hd] at he
      cases he
      rw [hopen] at hcommitted
      cases hcommitted
    · rw [heq] at hid
      rw [hmessage]
      exact hid

theorem commit (h : first.Consistent w) {n : Nat} {d : Delivery} {phase : DeliveryPhase}
    (hd : w.call n = some d) (hp : d.phase = .committing) (hphase : phase.hasCommitted = true) :
    first.Consistent (w.commit n d phase) := by
  have hclaimed : d.claimed = some d.message.messageId := claimed_of_phase hp
  have hnone : ({ d with phase } : Delivery).claimed = none := by
    unfold Delivery.claimed
    cases phase with
    | returned outcome => rfl
    | replyLost => rfl
    | _ => cases hphase
  have hzero : ∀ k, ({ d with phase } : Delivery).pending k = 0 := by
    apply pending_of_ne
    rintro rfl
    cases hphase
  refine ⟨?_,?_,h.recorded.commit hd hp hphase (h.ids.fresh n _ ((holdings_eq hd).trans hclaimed))⟩
  · have hids := h.ids.commitCall hd hclaimed hnone
    show UniqueIndex ((w.processed ++ [_]).map _) _ _
    rw [List.map_append]
    exact hids
  · refine h.books.commitCall hd (fun k => ?_) hzero
    have hamount : d.pending k = if k = d.message.accountId then d.message.amountCents else 0 := by
      unfold Delivery.pending
      simp only [hp,true_and]
    show credited (w.processed ++ [_]) k - _ = _
    rw [credited_append,hamount,InboxWorld.posted]
    omega

theorem move (h : first.Consistent w) (hm : InboxMove w w') : first.Consistent w' := by
  cases hm with
  | started n message hn =>
    apply h.keep
    · intro c hc
      rw [hn] at hc
      cases hc
    · exact (holdings_of_none hn).symm
    · rfl
    · nofun
    · nofun
  | conflicted n d hd hp hmem =>
    have hopen : d.phase.hasCommitted = false := by rw [hp]; rfl
    apply h.keep
    · exact forall_of_eq_some hd ⟨hopen,by rw [hp]; nofun⟩
    · exact ((holdings_eq hd).trans (claimed_of_phase hp)).symm
    · rfl
    · nofun
    · exact fun _ => h.delivered_of_conflict hd hopen rfl hmem
  | claimed n d hd hp hfresh hlock =>
    have hopen : ∀ c, w.call n = some c → c.phase.hasCommitted = false :=
      forall_of_eq_some hd (by rw [hp]; rfl)
    refine ⟨?_,?_,?_⟩
    · exact h.ids.insertCall hd (claimed_of_phase hp) hlock hfresh rfl
    · apply h.books.keepCall
      intro k
      rw [pendingOf_eq hd,pending_of_ne (d := d) (by rw [hp]; nofun)]
      exact pending_of_ne (by nofun) k
    · exact h.recorded.keep hopen rfl rfl rfl nofun
  | updated n d balance hd hp hversion =>
    have hopen : ∀ c, w.call n = some c → c.phase.hasCommitted = false :=
      forall_of_eq_some hd (by rw [hp]; rfl)
    refine ⟨?_,?_,?_⟩
    · exact h.ids.keepCall ((holdings_eq hd).trans (claimed_of_phase hp)).symm
    · apply h.books.addCall hd hversion
      intro k
      rw [pending_of_ne (d := d) (by rw [hp]; nofun),zero_add]
      unfold Delivery.pending
      simp only [true_and]
    · exact h.recorded.keep hopen rfl rfl rfl nofun
  | skipped n d hd hp =>
    apply h.keep
    · refine forall_of_eq_some hd ?_
      rw [hp]
      exact ⟨rfl,nofun⟩
    · exact ((holdings_eq hd).trans (claimed_of_phase hp)).symm
    · rfl
    · nofun
    · exact fun _ => h.recorded.skipped n d hd (by rw [hp]; rfl)
  | committed n d phase hd hp hphase => exact h.commit hd hp hphase
  | aborted n d hd hopen =>
    have hcommitted : ∀ c, w.call n = some c → c.phase.hasCommitted = false := by
      refine forall_of_eq_some hd ?_
      cases hp : d.phase with
      | returned outcome =>
        rw [hp] at hopen
        cases hopen
      | replyLost =>
        rw [hp] at hopen
        cases hopen
      | _ => rfl
    refine ⟨?_,?_,?_⟩
    · exact h.ids.rollbackCall hd rfl
    · exact h.books.rollbackCall (pending_of_ne nofun)
    · exact h.recorded.keep hcommitted rfl rfl rfl nofun

end InboxWorld.Consistent

structure InboxWorld.AppliedOnce (first w : InboxWorld) : Prop where
  balance : ∀ k, (w.accounts k).committed =
    (first.accounts k).committed + (credited w.processed k - credited first.processed k)
  unique : (w.processed.map ProcessedMessage.messageId).Nodup
  applied : ∀ n d, w.call n = some d → d.phase = .returned .applied →
    d.message.row ∈ w.processed
  once : ∀ m n d e, w.call m = some d → w.call n = some e → d.phase = .returned .applied →
    e.phase = .returned .applied → d.message.messageId = e.message.messageId → m = n
  duplicate : ∀ n d, w.call n = some d → d.phase = .returned .duplicate → first.Delivered w n d
  aborted : ∀ e w' n d, inboxStep w e = some w' → w.call n = some d → d.phase ≠ .threw →
    w'.call n = some { d with phase := .threw } →
    w'.processed = w.processed ∧ (∀ k, (w'.accounts k).committed = (w.accounts k).committed) ∧
      (∀ messageId, w'.messageLock messageId ≠ some n) ∧ ∀ k, w'.accounts.holder k ≠ some n
  redelivered : ∀ n message, w.call n = none →
    message.messageId ∉ w.processed.map ProcessedMessage.messageId →
    w.messageLock message.messageId = none → w.accounts.holder message.accountId = none →
    0 < message.amountCents ∧ message.amountCents ≤ maxInteger →
    w.known message.accountId = true →
    0 ≤ (w.accounts message.accountId).committed + message.amountCents ∧
      (w.accounts message.accountId).committed + message.amountCents ≤ maxInteger →
    ∃ w', run inboxStep w [.deliver n message,.query n,.query n,.query n] = some w' ∧
      w'.call n = some ⟨message,.returned .applied⟩

private theorem InboxMove.of_threw (hm : InboxMove w w') {n : Nat} {d : Delivery}
    (hd : w.call n = some d) (hp : d.phase ≠ .threw)
    (hthrew : w'.call n = some { d with phase := .threw }) : w' = w.abort n d := by
  have hmoved : ∀ m c, w'.call = Function.update w.call m (some c) →
      m = n ∧ c.phase = .threw := by
    intro m c hcall
    rw [hcall] at hthrew
    rcases update_eq_some hthrew with ⟨rfl,heq⟩ | ⟨_,hold⟩
    · exact ⟨rfl,heq ▸ rfl⟩
    · rw [hd] at hold
      exact absurd (congrArg Delivery.phase (Option.some.inj hold)) hp
  cases hm with
  | started m message hn => exact nomatch (hmoved m _ rfl).2
  | conflicted m c hc hphase hmem => exact nomatch (hmoved m _ rfl).2
  | claimed m c hc hphase hfresh hlock => exact nomatch (hmoved m _ rfl).2
  | updated m c balance hc hphase hversion => exact nomatch (hmoved m _ rfl).2
  | skipped m c hc hphase => exact nomatch (hmoved m _ rfl).2
  | committed m c phase hc hphase hcommitted =>
    obtain rfl : phase = .threw := (hmoved m _ rfl).2
    cases hcommitted
  | aborted m c hc hopen =>
    obtain ⟨rfl,_⟩ := hmoved m _ rfl
    rw [hd] at hc
    cases hc
    rfl

private theorem query_eq {n : Nat} {d : Delivery} (hd : w.call n = some d) :
    inboxStep w (.query n) = w.applyIdempotent n d := by
  unfold inboxStep
  dsimp only
  rw [hd]

private theorem query_claims {n : Nat} {message : CreditAppliedMessage}
    (hd : w.call n = some { message })
    (hamount : 0 < message.amountCents ∧ message.amountCents ≤ maxInteger)
    (hfresh : message.messageId ∉ w.processed.map ProcessedMessage.messageId)
    (hlock : w.messageLock message.messageId = none)
    (hknown : w.known message.accountId = true) :
    ∃ w', inboxStep w (.query n) = some w' ∧ w'.call n = some ⟨message,.updating⟩ ∧
      w'.accounts = w.accounts := by
  have hchecked : ¬ (message.row.amountCents ≤ 0 ∨ maxInteger < message.row.amountCents) := by
    have hrow : message.row.amountCents = message.amountCents := rfl
    omega
  have hfree : ¬ (w.messageLock message.row.messageId).isSome = true :=
    Option.not_isSome_iff_eq_none.mpr hlock
  rw [query_eq hd]
  exact ⟨_,(if_neg hchecked).trans ((if_neg hfresh).trans ((if_neg hfree).trans
    (if_pos hknown))),Function.update_self _ _ _,rfl⟩

private theorem query_credits {n : Nat} {message : CreditAppliedMessage}
    (hd : w.call n = some ⟨message,.updating⟩)
    (hholder : w.accounts.holder message.accountId = none)
    (hbalance : 0 ≤ (w.accounts message.accountId).committed + message.amountCents ∧
      (w.accounts message.accountId).committed + message.amountCents ≤ maxInteger) :
    ∃ w', inboxStep w (.query n) = some w' ∧ w'.call n = some ⟨message,.committing⟩ := by
  have hversion : (w.accounts message.accountId).version n =
      some (w.accounts message.accountId).committed := by
    unfold VersionedRow.version
    rw [Option.map_eq_none_iff.mp hholder]
  have hupdate : w.updateBalance n ⟨message,.updating⟩ =
      some { w.put n ⟨message,.committing⟩ with
        accounts := w.accounts.put n message.accountId
          ((w.accounts message.accountId).committed + message.amountCents) } := by
    unfold InboxWorld.updateBalance
    rw [hversion]
    exact if_pos hbalance
  rw [query_eq hd]
  exact ⟨_,hupdate,Function.update_self _ _ _⟩

private theorem redelivery_applies {n : Nat} {message : CreditAppliedMessage} (hn : w.call n = none)
    (hfresh : message.messageId ∉ w.processed.map ProcessedMessage.messageId)
    (hlock : w.messageLock message.messageId = none)
    (hholder : w.accounts.holder message.accountId = none)
    (hamount : 0 < message.amountCents ∧ message.amountCents ≤ maxInteger)
    (hknown : w.known message.accountId = true)
    (hbalance : 0 ≤ (w.accounts message.accountId).committed + message.amountCents ∧
      (w.accounts message.accountId).committed + message.amountCents ≤ maxInteger) :
    ∃ w', run inboxStep w [.deliver n message,.query n,.query n,.query n] = some w' ∧
      w'.call n = some ⟨message,.returned .applied⟩ := by
  have hdeliver : inboxStep w (.deliver n message) = some (w.put n { message }) := by
    unfold inboxStep
    dsimp only
    rw [hn]
  obtain ⟨w₁,hinsert,hcall,haccounts⟩ := query_claims (w := w.put n { message })
    (Function.update_self _ _ _) hamount hfresh hlock hknown
  have haccounts : w₁.accounts = w.accounts := haccounts
  rw [← haccounts] at hholder hbalance
  obtain ⟨w₂,hupdate,hcall⟩ := query_credits hcall hholder hbalance
  refine ⟨w₂.commit n ⟨message,.committing⟩ (.returned .applied),?_,Function.update_self _ _ _⟩
  rw [run_cons_of hdeliver,run_cons_of hinsert,run_cons_of hupdate,run_cons_of (query_eq hcall)]
  rfl

theorem applyIdempotent_appliedOnce (hfirst : first.Idle)
    (h : Reachable inboxStep (· = first) w) : first.AppliedOnce w := by
  have hw : first.Consistent w := by
    refine h.invariant ?_ fun _ _ _ hc _ hs => hc.move (inboxStep_move hs)
    rintro _ rfl
    exact .start hfirst
  refine ⟨hw.books.posted,hw.ids.nodup,?_,?_,?_,?_,fun n message => redelivery_applies⟩
  · intro n d hd hp
    exact hw.recorded.committed n d hd (by rw [hp]; rfl)
  · intro m n d e hd he hp hp'
    exact hw.recorded.once m n d e hd he (by rw [hp]; rfl) (by rw [hp']; rfl)
  · intro n d hd hp
    exact hw.recorded.skipped n d hd (by rw [hp]; rfl)
  · intro e w' n d hs hd hp hthrew
    have hafter := hw.move (inboxStep_move hs)
    obtain rfl := (inboxStep_move hs).of_threw hd hp hthrew
    refine ⟨rfl,committed_rollback _ _,fun messageId hlock => ?_,holder_rollback_ne _ _⟩
    have hclaimed := (hafter.ids.held _ _).mp hlock
    rw [holdings_eq hthrew] at hclaimed
    cases hclaimed

/-- Two deliveries of one message meet: the second waits for the claim of the first, which
fails, and applies the message; a third is told that its `COMMIT` got no reply. -/
def redeliveries : List InboxEvent :=
  let message : CreditAppliedMessage := ⟨"m-1",1,4000⟩
  [.deliver 0 message,.deliver 1 message,.query 0,.query 0,.abort 0,.query 1,
    .deliver 2 ⟨"m-1",1,9000⟩,.query 1,.query 1,.query 2,.query 2,
    .deliver 3 ⟨"m-2",2,500⟩,.query 3,.query 3,.loseReply 3,.deliver 4 ⟨"m-2",2,500⟩,.query 4,
    .query 4]

def twoAccounts : InboxWorld where
  known k := k == 1 || k == 2
  accounts _ := { committed := 100 }

private theorem twoAccounts_idle : twoAccounts.Idle := by
  refine ⟨fun _ => rfl,?_,rfl,rfl⟩
  exact List.nodup_nil

theorem redeliveries_appliedOnce :
    ∃ w, run inboxStep twoAccounts redeliveries = some w ∧ twoAccounts.AppliedOnce w ∧
      (w.accounts 1).committed = 4100 ∧ (w.accounts 2).committed = 600 := by
  have hrun : (run inboxStep twoAccounts redeliveries).any (fun w =>
      (w.accounts 1).committed == 4100 && (w.accounts 2).committed == 600) = true := by
    decide +kernel
  obtain ⟨w,hw,hbalances,hreachable⟩ := exists_run_of_any hrun
  rw [Bool.and_eq_true,beq_iff_eq,beq_iff_eq] at hbalances
  exact ⟨w,hw,applyIdempotent_appliedOnce twoAccounts_idle hreachable,hbalances⟩

end SystemsLab.Inbox
