import SystemsLab.Ticketing.SeatLocks

/-!
# The seats change atomically

A transaction takes the steps of the state machine when it commits, as the single statements do
when they run. So the history of all calls is one history of the state machine, and what is known
of that goes for the calls.
-/

namespace SystemsLab.Ticketing

open RowVersions

variable {first w w' : TicketWorld} {n k : Nat} {c c' : TicketCall}

/-- `known` have been given out and `used` are in the history; a call that has not committed has
one of its own. -/
structure TokensFresh (known used : List String) (pending : Nat → Option String) : Prop where
  given : ∀ token ∈ used, token ∈ known
  fresh : ∀ n token, pending n = some token → token ∈ known ∧ token ∉ used
  distinct : ∀ n m token, pending n = some token → pending m = some token → n = m

namespace TokensFresh

variable {known used : List String} {pending pending' : Nat → Option String} {token : String}

theorem start {known : List String} (hpending : ∀ n, pending n = none) :
    TokensFresh known known pending := by
  refine ⟨fun _ => id,?_,?_⟩
  · intro n token hn
    rw [hpending] at hn
    cases hn
  · intro n m token hn
    rw [hpending] at hn
    cases hn

private theorem drop (h : TokensFresh known used pending) {known' : List String}
    (hknown : ∀ token ∈ known, token ∈ known')
    (hpending : ∀ m, pending' m = none ∨ pending' m = pending m) :
    TokensFresh known' used pending' := by
  have hold : ∀ m token, pending' m = some token → pending m = some token := by
    intro m token hm
    rcases hpending m with hnone | heq
    · rw [hnone] at hm
      cases hm
    · rw [← heq]
      exact hm
  refine ⟨fun token ht => hknown token (h.given token ht),?_,?_⟩
  · intro m token hm
    obtain ⟨hk,hu⟩ := h.fresh m token (hold m token hm)
    exact ⟨hknown token hk,hu⟩
  · intro m j token hm hj
    exact h.distinct m j token (hold m token hm) (hold j token hj)

private theorem take (h : TokensFresh known used pending) (hnew : token ∉ known)
    (hself : pending' n = some token) (hother : ∀ m, m ≠ n → pending' m = pending m) :
    TokensFresh (token::known) used pending' := by
  have hne : ∀ m t, m ≠ n → pending' m = some t → t ≠ token := by
    rintro m t hm ht rfl
    rw [hother m hm] at ht
    exact hnew (h.fresh m t ht).1
  refine ⟨fun t ht => List.mem_cons_of_mem _ (h.given t ht),?_,?_⟩
  · intro m t ht
    by_cases hm : m = n
    · subst hm
      obtain rfl : token = t := Option.some.inj (hself.symm.trans ht)
      exact ⟨List.mem_cons_self,fun hmem => hnew (h.given _ hmem)⟩
    · rw [hother m hm] at ht
      obtain ⟨hk,hu⟩ := h.fresh m t ht
      exact ⟨List.mem_cons_of_mem _ hk,hu⟩
  · intro m j t hm hj
    by_cases hmn : m = n
    · subst hmn
      obtain rfl : token = t := Option.some.inj (hself.symm.trans hm)
      by_contra hjm
      exact hne j token (Ne.symm hjm) hj rfl
    · by_cases hjn : j = n
      · subst hjn
        obtain rfl : token = t := Option.some.inj (hself.symm.trans hj)
        exact absurd rfl (hne m token hmn hm)
      · rw [hother m hmn] at hm
        rw [hother j hjn] at hj
        exact h.distinct m j t hm hj

private theorem use (h : TokensFresh known used pending) (hn : pending n = some token)
    (hself : pending' n = none) (hother : ∀ m, m ≠ n → pending' m = pending m) :
    TokensFresh known (token::used) pending' := by
  refine ⟨?_,?_,?_⟩
  · intro t ht
    rcases List.mem_cons.mp ht with rfl | hold
    · exact (h.fresh n t hn).1
    · exact h.given t hold
  · intro m t hm
    have hmn : m ≠ n := by
      rintro rfl
      rw [hself] at hm
      cases hm
    rw [hother m hmn] at hm
    obtain ⟨hk,hu⟩ := h.fresh m t hm
    refine ⟨hk,?_⟩
    rw [List.mem_cons,not_or]
    refine ⟨?_,hu⟩
    rintro rfl
    exact hmn (h.distinct m n t hm hn)
  · intro m j t hm hj
    have hdrop : ∀ i, pending' i = some t → pending i = some t := by
      intro i hi
      by_cases hin : i = n
      · subst hin
        rw [hself] at hi
        cases hi
      · rw [← hother i hin]
        exact hi
    exact h.distinct m j t (hdrop m hm) (hdrop j hj)

private theorem give (h : TokensFresh known used pending) (hnew : token ∉ known) :
    TokensFresh (token::known) (token::used) pending := by
  refine ⟨?_,?_,h.distinct⟩
  · intro t ht
    rcases List.mem_cons.mp ht with rfl | hold
    · exact List.mem_cons_self
    · exact List.mem_cons_of_mem _ (h.given t hold)
  · intro m t hm
    obtain ⟨hk,hu⟩ := h.fresh m t hm
    refine ⟨List.mem_cons_of_mem _ hk,?_⟩
    rw [List.mem_cons,not_or]
    refine ⟨?_,hu⟩
    rintro rfl
    exact hnew hk

end TokensFresh

theorem run_expire {now : Int} {tokens : List String} {expired : List (Nat × Option String)}
    {rows : Nat → SeatRow} (hnodup : (expired.map Prod.fst).Nodup)
    (hvalid : ∀ k token, (k,token) ∈ expired →
      (rows k).expirable now = true ∧ (rows k).reservationToken = token) :
    run seatStep ⟨rows,tokens⟩ (expired.map fun row => .expire row.1 row.2 now) =
      some ⟨fun k => if k ∈ expired.map Prod.fst then (rows k).release else rows k,tokens⟩ := by
  induction expired generalizing rows with
  | nil => rfl
  | cons row expired ih =>
    obtain ⟨k,token⟩ := row
    rw [List.map_cons,List.nodup_cons] at hnodup
    have hstep : seatStep ⟨rows,tokens⟩ (.expire k token now) =
        some ⟨Function.update rows k (rows k).release,tokens⟩ :=
      if_pos (hvalid k token List.mem_cons_self)
    rw [List.map_cons,run_cons_of hstep,ih hnodup.2]
    · congr 2
      funext m
      rw [List.map_cons]
      by_cases hm : m = k
      · subst hm
        rw [if_neg hnodup.1,Function.update_self,if_pos List.mem_cons_self]
      · rw [Function.update_of_ne hm]
        simp only [List.mem_cons,hm,false_or]
    · intro m token' hmem
      have hin : m ∈ expired.map Prod.fst := List.mem_map_of_mem (f := Prod.fst) hmem
      have hm : m ≠ k := by
        rintro rfl
        exact hnodup.1 hin
      rw [Function.update_of_ne hm]
      exact hvalid m token' (List.mem_cons_of_mem _ hmem)

/-- A transaction that commits takes the steps of its operations. -/
theorem TicketCall.Commits.run_ops {rows : Nat → SeatRow} {tokens : List String}
    (h : c.Commits c') (hvalid : c.Valid rows) (htoken : ∀ token, c.token = some token →
      token ∉ tokens) : run seatStep ⟨rows,tokens⟩ c.ops =
      some ⟨fun k => if k ∈ c.locked then c.write (rows k) else rows k,
        c.token.toList ++ tokens⟩ := by
  cases h with
  | reserved k buyer token reservedUntil =>
    have hstep : seatStep ⟨rows,tokens⟩ (.reserve k token buyer reservedUntil) =
        some ⟨Function.update rows k ((rows k).reserve token buyer reservedUntil),token::tokens⟩ :=
      if_pos ⟨hvalid,htoken token rfl⟩
    show run seatStep ⟨rows,tokens⟩ [.reserve k token buyer reservedUntil] = _
    rw [run_cons_of hstep,run_nil]
    congr 2
    funext m
    by_cases hm : m = k
    · subst hm
      rw [Function.update_self]
      exact (if_pos List.mem_cons_self).symm
    · rw [Function.update_of_ne hm]
      exact (if_neg fun hmem => hm (List.mem_singleton.mp hmem)).symm
  | expired now expired => exact run_expire hvalid.1 hvalid.2

private theorem TicketWorld.Applies.seatStep {op : SeatOp} {row : SeatRow} {tokens : List String}
    (h : w.Applies op row c) (htokens : ∀ token ∈ tokens, token ∈ w.tokens) :
    seatStep ⟨w.row,tokens⟩ op =
      some ⟨Function.update w.row op.seatId row,op.given ++ tokens⟩ := by
  cases h with
  | reserved k buyer token reservedUntil hfree htoken =>
    exact if_pos ⟨hfree,fun hmem => htoken (htokens token hmem)⟩
  | sold k token now hpay => exact if_pos hpay

theorem TicketWorld.Locked.row_commit (h : w.Locked) (n k : Nat) :
    (w.seats.commit n k).committed =
      if k ∈ (w.callOf n).locked then (w.callOf n).write (w.row k) else w.row k := by
  rcases commit_cases w.seats n k with ⟨heq,hfree⟩ | ⟨v,hv,heq⟩
  · rw [if_neg,heq]
    · rfl
    · intro hk
      exact hfree _ ((h.held n k _).mpr ⟨hk,rfl⟩)
  · obtain ⟨hk,hwrite⟩ := (h.held n k v).mp hv
    rw [if_pos hk,heq]
    exact hwrite

private theorem TicketWorld.Applies.fresh {op : SeatOp} {row : SeatRow} {used : List String}
    {pending : Nat → Option String} (h : w.Applies op row c)
    (hused : TokensFresh w.tokens used pending) :
    TokensFresh (op.given ++ w.tokens) (op.given ++ used) pending := by
  cases h with
  | reserved k buyer token reservedUntil hfree htoken => exact hused.give htoken
  | sold k token now hpay => exact hused

private theorem TicketCall.Writes.reports {row : SeatRow} (h : c.Writes k row c')
    (ops : List SeatOp)
    (hops : c.Reports ops) : c'.Reports ops := by
  cases h with
  | available buyer hfree => exact hops
  | taken buyer => exact hops
  | updated buyer token reservedUntil => exact hops
  | expired now todo todo' expired hexpirable => exact hops

private theorem TicketCall.Commits.reports {ops : List SeatOp} (h : c.Commits c')
    (hops : c.Reports ops) : c'.Reports (ops ++ c.ops) := by
  cases h with
  | reserved k buyer token reservedUntil =>
    obtain rfl : ops = [] := hops
    exact ⟨reservedUntil,rfl⟩
  | expired now expired =>
    obtain rfl : ops = [] := hops
    refine ⟨?_,?_⟩
    · show (expired.map fun row => SeatOp.expire row.1 row.2 now).map SeatOp.seatId = _
      rw [List.map_map]
      rfl
    · intro op hop
      obtain ⟨row,_,rfl⟩ := List.mem_map.mp hop
      exact ⟨row.2,now,rfl⟩

private theorem TicketWorld.Applies.reports {op : SeatOp} {row : SeatRow} (h : w.Applies op row c) :
    c.Reports [op] := by
  cases h with
  | reserved k buyer token reservedUntil hfree htoken => exact ⟨reservedUntil,rfl⟩
  | sold k token now hpay => exact ⟨token,now,rfl⟩

private theorem mem_opsOf {history : List (Nat × SeatOp)} {op : SeatOp} :
    op ∈ opsOf history n ↔ (n,op) ∈ history := by
  simp [opsOf]

/-- Only a reservation that was granted has a reservation to report. -/
theorem TicketCall.Reports.of_reserve {ops : List SeatOp} {seatId : Nat} {token buyer : String}
    {reservedUntil : Int} (h : c.Reports ops)
    (hop : .reserve seatId token buyer reservedUntil ∈ ops) :
    c = .reservation (.reserved seatId buyer token) := by
  unfold Reports at h
  split at h
  · obtain ⟨u,rfl⟩ := h
    cases List.mem_singleton.mp hop
    rfl
  · obtain ⟨t,now,rfl⟩ := h
    cases List.mem_singleton.mp hop
  · obtain ⟨t,now,heq⟩ := h.2 _ hop
    cases heq
  · subst h
    cases hop

structure TicketWorld.Sound (first w : TicketWorld) : Prop where
  locked : w.Locked
  refines : ∃ used, run seatStep ⟨first.row,first.tokens⟩ (w.history.map Prod.snd) =
    some ⟨w.row,used⟩ ∧ TokensFresh w.tokens used fun n => (w.callOf n).token
  reports : ∀ n, (w.callOf n).Reports (opsOf w.history n)

namespace TicketWorld.Sound

theorem start (h : first.Idle) : first.Sound first := by
  have hcall : ∀ n, first.callOf n = .threw := by
    intro n
    exact callOf_none (by rw [h.calls])
  refine ⟨⟨?_,?_⟩,⟨first.tokens,?_,.start fun n => ?_⟩,?_⟩
  · intro n k v
    rw [hcall,h.locks]
    exact iff_of_false nofun nofun
  · intro n
    rw [hcall]
    trivial
  · rw [h.history]
    rfl
  · rw [hcall]
    rfl
  · intro n
    rw [hcall,h.history]
    rfl

private theorem update (h : first.Sound w) (ops : List SeatOp) (hlocked : w'.Locked)
    (hcall : w'.call = Function.update w.call n (some c))
    (hhistory : w'.history = w.history ++ ops.map fun op => (n,op))
    (hruns : ∀ used, TokensFresh w.tokens used (fun m => (w.callOf m).token) →
      ∃ used', run seatStep ⟨w.row,used⟩ ops = some ⟨w'.row,used'⟩ ∧
        TokensFresh w'.tokens used' fun m => if m = n then c.token else (w.callOf m).token)
    (hreports : ∀ past, (w.callOf n).Reports past → c.Reports (past ++ ops)) :
    first.Sound w' := by
  obtain ⟨used,hrun,hfresh⟩ := h.refines
  obtain ⟨used',hrun',hfresh'⟩ := hruns used hfresh
  refine ⟨hlocked,⟨used',?_,?_⟩,?_⟩
  · rw [hhistory,List.map_append,List.map_map,run_append,hrun]
    simpa [Function.comp_def] using hrun'
  · have htoken : (fun m => (w'.callOf m).token) =
        fun m => if m = n then c.token else (w.callOf m).token := by
      funext m
      rw [callOf_update hcall]
      split <;> rfl
    rw [htoken]
    exact hfresh'
  · intro m
    rw [callOf_update hcall,hhistory,opsOf_append]
    split
    · rename_i hm
      subst hm
      exact hreports _ (h.reports m)
    · exact h.reports m

theorem keep (h : first.Sound w) (hlocked : w'.Locked)
    (hcall : w'.call = Function.update w.call n (some c)) (hhistory : w'.history = w.history)
    (hrow : w'.row = w.row)
    (hfresh : ∀ used, TokensFresh w.tokens used (fun m => (w.callOf m).token) →
      TokensFresh w'.tokens used fun m => if m = n then c.token else (w.callOf m).token)
    (hreports : ∀ past, (w.callOf n).Reports past → c.Reports past) : first.Sound w' := by
  refine h.update [] hlocked hcall ?_ (fun used hused => ⟨used,?_,hfresh used hused⟩)
    fun past hpast => ?_
  · rw [hhistory]
    exact (List.append_nil _).symm
  · rw [hrow]
    rfl
  · rw [List.append_nil]
    exact hreports past hpast

private theorem dropped {c : TicketCall} (hc : c.token = none) (m : Nat) :
    (if m = n then c.token else (w.callOf m).token) = none ∨
      (if m = n then c.token else (w.callOf m).token) = (w.callOf m).token := by
  split
  · exact .inl hc
  · exact .inr rfl

theorem move (h : first.Sound w) (hm : TicketMove w w') : first.Sound w' := by
  have hlocked := h.locked.move hm
  cases hm with
  | ticked us => exact ⟨hlocked,h.refines,h.reports⟩
  | kept n c tokens hkeeps htokens =>
    exact h.keep hlocked rfl rfl rfl (fun used hused => hused.drop htokens (dropped hkeeps.token))
      hkeeps.reports
  | applied n op row c hn happlies hheld =>
    refine h.update [op] hlocked rfl rfl
      (fun used hused => ⟨op.given ++ used,?_,?_⟩) fun past hpast => ?_
    · rw [run_cons_of (happlies.seatStep hused.given),run_nil]
      congr 2
      exact (committed_overwrite _ _ _).symm
    · exact (happlies.fresh hused).drop (fun _ => id) (dropped happlies.released.token)
    · rw [callOf_none hn] at hpast
      obtain rfl : past = [] := hpast
      exact happlies.reports
  | wrote n k row c hversion hwrites htoken =>
    refine h.keep hlocked rfl rfl ?_ (fun used hused => ?_) hwrites.reports
    · funext m
      exact committed_put _ _ _ _ _
    · show TokensFresh (c.token.toList ++ w.tokens) used _
      cases hc : c.token with
      | none =>
        have hdrop := dropped (w := w) (n := n) hc
        rw [hc] at hdrop
        exact hused.drop (fun _ => id) hdrop
      | some token =>
        exact hused.take (htoken token hc) (if_pos rfl) fun m hm => if_neg hm
  | committed n result hcommits =>
    have hresult := hcommits.released.token
    refine h.update (w.callOf n).ops hlocked rfl rfl
      (fun used hused => ⟨(w.callOf n).token.toList ++ used,?_,?_⟩) fun past => hcommits.reports
    · rw [hcommits.run_ops (h.locked.valid n) fun token ht => (hused.fresh n token ht).2]
      congr 2
      funext m
      exact (h.locked.row_commit n m).symm
    · cases hc : (w.callOf n).token with
      | none => exact hused.drop (fun _ => id) (dropped hresult)
      | some token =>
        refine hused.use hc ?_ fun m hm => if_neg hm
        rw [if_pos rfl]
        exact hresult
  | rolledBack n result hreports hresult =>
    refine h.keep hlocked rfl rfl ?_ (fun used hused => ?_) hreports
    · funext m
      exact committed_rollback _ _ _
    · exact hused.drop (fun _ => id) (dropped hresult.token)

end TicketWorld.Sound

private theorem TicketWorld.Applies.changes {op : SeatOp} {row : SeatRow} (h : w.Applies op row c) :
    SeatRow.Changes (w.row op.seatId) row := by
  cases h with
  | reserved k buyer token reservedUntil hfree htoken => exact .reserved hfree rfl
  | sold k token now hpay => exact .sold (SeatRow.of_payable hpay).1 rfl

private theorem TicketCall.Commits.changes {rows : Nat → SeatRow} (h : c.Commits c')
    (hvalid : c.Valid rows) (hk : k ∈ c.locked) :
    SeatRow.Changes (rows k) (c.write (rows k)) := by
  cases h with
  | reserved seatId buyer token reservedUntil =>
    rw [List.mem_singleton.mp hk]
    exact .reserved hvalid rfl
  | expired now expired =>
    obtain ⟨⟨m,token⟩,hmem,rfl⟩ := List.mem_map.mp hk
    exact .released (SeatRow.of_expirable (hvalid.2 m token hmem).1).1 rfl

private theorem TicketMove.changes (hm : TicketMove w w') (h : w.Locked) (k : Nat) :
    w'.row k = w.row k ∨ SeatRow.Changes (w.row k) (w'.row k) := by
  cases hm with
  | ticked us => exact .inl rfl
  | kept n c tokens hkeeps htokens => exact .inl rfl
  | applied n op row c hn happlies hheld =>
    show (w.seats.overwrite op.seatId row k).committed = _ ∨
      SeatRow.Changes _ (w.seats.overwrite op.seatId row k).committed
    by_cases hk : k = op.seatId
    · subst hk
      rw [overwrite_self]
      exact .inr happlies.changes
    · rw [overwrite_of_ne _ _ hk]
      exact .inl rfl
  | wrote n m row c hversion hwrites htoken => exact .inl (committed_put _ _ _ _ _)
  | committed n result hcommits =>
    show (w.seats.commit n k).committed = _ ∨ SeatRow.Changes _ (w.seats.commit n k).committed
    rw [h.row_commit]
    split
    · rename_i hk
      exact .inr (hcommits.changes (h.valid n) hk)
    · exact .inl rfl
  | rolledBack n result hreports hresult => exact .inl (committed_rollback _ _ _)

/-- `refines` puts the effects of all calls, whichever mechanism they use, in one order in which
they are steps of the seats' state machine. -/
structure TicketWorld.Atomic (first w : TicketWorld) : Prop where
  refines : ∃ used, run seatStep ⟨first.row,first.tokens⟩ (w.history.map Prod.snd) =
    some ⟨w.row,used⟩
  reports : ∀ n c, w.call n = some c → c.Reports (opsOf w.history n)
  changes : ∀ e w', ticketStep w e = some w' →
    ∀ k, w'.row k = w.row k ∨ SeatRow.Changes (w.row k) (w'.row k)
  reserved : ∀ n k buyer token, w.call n = some (.reservation (.reserved k buyer token)) ↔
    ∃ reservedUntil, (n,.reserve k token buyer reservedUntil) ∈ w.history
  sold : ∀ n k, w.call n = some (.payment (.sold k)) → (w.row k).status = .SOLD ∧
    ∃ token now reservedUntil, (n,.pay k token now) ∈ w.history ∧
      SeatTable.latestHold ⟨first.row,first.tokens⟩ (w.history.map Prod.snd) k =
        (some token,some reservedUntil) ∧ now < reservedUntil
  oneSale : ∀ n m k, w.call n = some (.payment (.sold k)) →
    w.call m = some (.payment (.sold k)) → n = m
  exclusive : ∀ k token now now', .pay k token now ∈ w.history.map Prod.snd →
    .expire k (some token) now' ∉ w.history.map Prod.snd

private theorem pay_of_sold (h : first.Sound w) (hn : w.call n = some (.payment (.sold k))) :
    ∃ token now, (n,.pay k token now) ∈ w.history := by
  have hreports := h.reports n
  rw [callOf_eq hn] at hreports
  obtain ⟨token,now,hops⟩ := hreports
  refine ⟨token,now,mem_opsOf.mp ?_⟩
  rw [hops]
  exact List.mem_singleton_self _

theorem reserved_iff (h : first.Sound w) {buyer token : String} :
    w.call n = some (.reservation (.reserved k buyer token)) ↔
      ∃ reservedUntil, (n,.reserve k token buyer reservedUntil) ∈ w.history := by
  have hreports := h.reports n
  constructor
  · intro hn
    rw [callOf_eq hn] at hreports
    obtain ⟨reservedUntil,hops⟩ := hreports
    refine ⟨reservedUntil,mem_opsOf.mp ?_⟩
    rw [hops]
    exact List.mem_singleton_self _
  · rintro ⟨reservedUntil,hmem⟩
    have hcall := hreports.of_reserve (mem_opsOf.mpr hmem)
    cases hn : w.call n with
    | none =>
      rw [callOf_none hn] at hcall
      cases hcall
    | some c =>
      rw [callOf_eq hn] at hcall
      rw [hcall]

private theorem oneSale_of_final {history : List (Nat × SeatOp)} {m : Nat} {token token' : String}
    {now now' : Int} (hfinal : (history.map Prod.snd).Pairwise fun a b =>
      ∀ token now, a = .pay a.seatId token now → a.seatId ≠ b.seatId)
    (hn : (n,.pay k token now) ∈ history) (hm : (m,.pay k token' now') ∈ history) : n = m := by
  let SameCall : Nat × SeatOp → Nat × SeatOp → Prop := fun a b =>
    ∀ t u t' u', a.2 = .pay k t u → b.2 = .pay k t' u' → a.1 = b.1
  rw [List.pairwise_map] at hfinal
  have hnever : ∀ a b : Nat × SeatOp,
      (∀ t u, a.2 = .pay a.2.seatId t u → a.2.seatId ≠ b.2.seatId) →
        ∀ t u t' u', a.2 = .pay k t u → b.2 ≠ .pay k t' u' := by
    intro a b hab t u t' u' ha hb
    rw [ha,hb] at hab
    exact hab t u rfl rfl
  have hsame : history.Pairwise SameCall :=
    hfinal.imp fun hab t u t' u' ha hb => absurd hb (hnever _ _ hab t u t' u' ha)
  have hflip : history.Pairwise (flip SameCall) :=
    hfinal.imp fun hab t u t' u' hb ha => absurd hb (hnever _ _ hab t' u' t u ha)
  exact hsame.forall_of_forall_of_flip (fun _ _ _ _ _ _ _ _ => rfl) hflip hn hm token now token'
    now' rfl rfl

/-- Two seats are reserved, each in its own way; one is paid for, and the other one expires, is
refused to a late payment and is reserved again. -/
def lateBuyer : List TicketEvent :=
  [.attemptConditionalReservation 0 1 "ann" "t0" 10,.attemptRowLockReservation 1 1 "bob",
    .query 1 "" 0,.query 1 "" 0,.attemptRowLockReservation 2 2 "cleo",.query 2 "" 0,
    .query 2 "t1" 5,.query 2 "" 0,.advance 7,.expireReservations 3 7,.completePayment 4 1 "t0" 7,
    .expireSeat 3 2,.query 3 "" 0,.completePayment 5 2 "t1" 6,
    .attemptConditionalReservation 6 2 "dan" "t2" 20]

def twoSeats : TicketWorld where
  ids := [1,2]
  seats _ := { committed := {} }

end SystemsLab.Ticketing
