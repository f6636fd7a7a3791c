import SystemsLab.Ticketing.Reservations

/-!
# What the calls have locked

The rows that a call has locked and what it leaves in them can be read off the call, and nobody
else changes them until its transaction ends.
-/

namespace SystemsLab.Ticketing

open RowVersions

variable {w w' : TicketWorld} {n k : Nat} {c c' : TicketCall}

namespace TicketCall

def locked : TicketCall → List Nat
  | rowLock seatId _ .updating => [seatId]
  | rowLock seatId _ (.committing _ _) => [seatId]
  | rowLock seatId _ (.rollingBack true) => [seatId]
  | expiring _ _ expired => expired.map Prod.fst
  | _ => []

/-- The version that the call leaves in the rows it has locked. -/
def write (row : SeatRow) : TicketCall → SeatRow
  | rowLock _ buyer (.committing token reservedUntil) => row.reserve token buyer reservedUntil
  | expiring _ _ _ => row.release
  | _ => row

/-- The token of a reservation that has not committed. -/
def token : TicketCall → Option String
  | rowLock _ _ (.committing token _) => some token
  | _ => none

/-- What the checks of the call have found in the rows it has locked. -/
def Valid (rows : Nat → SeatRow) : TicketCall → Prop
  | rowLock seatId _ .updating => (rows seatId).status = .AVAILABLE
  | rowLock seatId _ (.committing _ _) => (rows seatId).status = .AVAILABLE
  | expiring now _ expired => (expired.map Prod.fst).Nodup ∧ ∀ k token, (k,token) ∈ expired →
      (rows k).expirable now = true ∧ (rows k).reservationToken = token
  | _ => True

/-- What the call reports about the operations that it had committed. -/
def Reports (ops : List SeatOp) : TicketCall → Prop
  | reservation (.reserved seatId buyer token) =>
    ∃ reservedUntil, ops = [.reserve seatId token buyer reservedUntil]
  | payment (.sold seatId) => ∃ token now, ops = [.pay seatId token now]
  | expiry expiredSeatIds => ops.map SeatOp.seatId = expiredSeatIds ∧
      ∀ op ∈ ops, ∃ token now, op = .expire op.seatId token now
  | _ => ops = []

theorem Valid.congr {rows rows' : Nat → SeatRow} (h : c.Valid rows)
    (hrows : ∀ k ∈ c.locked, rows' k = rows k) : c.Valid rows' := by
  unfold Valid at h ⊢
  unfold locked at hrows
  split at h
  · dsimp only at hrows ⊢
    rw [hrows _ (List.mem_singleton_self _)]
    exact h
  · dsimp only at hrows ⊢
    rw [hrows _ (List.mem_singleton_self _)]
    exact h
  · refine ⟨h.1,fun k token hk => ?_⟩
    rw [hrows k (List.mem_map_of_mem (f := Prod.fst) hk)]
    exact h.2 k token hk
  · trivial

end TicketCall

/-- A call that has not begun has done as little as one that threw. -/
def TicketWorld.callOf (w : TicketWorld) (n : Nat) : TicketCall := (w.call n).getD .threw

def opsOf (history : List (Nat × SeatOp)) (n : Nat) : List SeatOp :=
  (history.filter (·.1 = n)).map Prod.snd

theorem callOf_eq (hc : w.call n = some c) : w.callOf n = c := by
  rw [TicketWorld.callOf,hc]
  rfl

theorem callOf_none (hn : w.call n = none) : w.callOf n = .threw := by
  rw [TicketWorld.callOf,hn]
  rfl

theorem callOf_update (hcall : w'.call = Function.update w.call n (some c)) (m : Nat) :
    w'.callOf m = if m = n then c else w.callOf m := by
  unfold TicketWorld.callOf
  rw [hcall]
  by_cases hm : m = n
  · subst hm
    rw [Function.update_self,if_pos rfl]
    rfl
  · rw [Function.update_of_ne hm,if_neg hm]

theorem opsOf_append (history : List (Nat × SeatOp)) (n : Nat) (ops : List SeatOp) (m : Nat) :
    opsOf (history ++ ops.map fun op => (n,op)) m =
      if m = n then opsOf history m ++ ops else opsOf history m := by
  unfold opsOf
  rw [List.filter_append,List.map_append,List.filter_map]
  by_cases hm : m = n
  · subst hm
    simp [Function.comp_def]
  · simp [Function.comp_def,hm,Ne.symm hm]

/-- The single statements that change a seat: what they do, write and report. -/
inductive TicketWorld.Applies (w : TicketWorld) : SeatOp → SeatRow → TicketCall → Prop
  | reserved (k : Nat) (buyer token : String) (reservedUntil : Int) :
      (w.row k).status = .AVAILABLE → token ∉ w.tokens →
      Applies w (.reserve k token buyer reservedUntil) ((w.row k).reserve token buyer reservedUntil)
        (.reservation (.reserved k buyer token))
  | sold (k : Nat) (token : String) (now : Int) : (w.row k).payable token now = true →
      Applies w (.pay k token now) (w.row k).sell (.payment (.sold k))

/-- The statements of a transaction that lock a row, by the version they meet. -/
inductive TicketCall.Writes (k : Nat) (row : SeatRow) : TicketCall → TicketCall → Prop
  | available (buyer : String) : row.status = .AVAILABLE →
      Writes k row (.rowLock k buyer .selecting) (.rowLock k buyer .updating)
  | taken (buyer : String) : Writes k row (.rowLock k buyer .selecting)
      (.rowLock k buyer (.rollingBack true))
  | updated (buyer token : String) (reservedUntil : Int) :
      Writes k row (.rowLock k buyer .updating) (.rowLock k buyer (.committing token reservedUntil))
  | expired (now : Int) (todo todo' : List Nat) (expired : List (Nat × Option String)) :
      row.expirable now = true → Writes k row (.expiring now todo expired)
        (.expiring now todo' (expired ++ [(k,row.reservationToken)]))

/-- What a transaction returns after its `COMMIT`. -/
inductive TicketCall.Commits : TicketCall → TicketCall → Prop
  | reserved (k : Nat) (buyer token : String) (reservedUntil : Int) :
      Commits (.rowLock k buyer (.committing token reservedUntil))
        (.reservation (.reserved k buyer token))
  | expired (now : Int) (expired : List (Nat × Option String)) :
      Commits (.expiring now [] expired) (.expiry (expired.map Prod.fst))

/-- The tokens that an operation gives out. -/
def SeatOp.given : SeatOp → List String
  | reserve _ token _ _ => [token]
  | _ => []

/-- A call goes on, or ends, without a lock, an effect or a token. -/
structure TicketCall.Keeps (c c' : TicketCall) : Prop where
  locked : c'.locked = c.locked
  write : ∀ k ∈ c.locked, ∀ row, c'.write row = c.write row
  token : c'.token = none
  valid : ∀ rows, c.Valid rows → c'.Valid rows
  reports : ∀ ops, c.Reports ops → c'.Reports ops

/-- A call that holds nothing. -/
structure TicketCall.Released (c : TicketCall) : Prop where
  locked : c.locked = []
  token : c.token = none
  valid : ∀ rows, c.Valid rows

theorem TicketCall.Commits.released (h : c.Commits c') : c'.Released := by
  cases h with
  | reserved k buyer token reservedUntil => exact ⟨rfl,rfl,fun _ => trivial⟩
  | expired now expired => exact ⟨rfl,rfl,fun _ => trivial⟩

theorem TicketWorld.Applies.released {op : SeatOp} {row : SeatRow} (h : w.Applies op row c) :
    c.Released := by
  cases h with
  | reserved k buyer token reservedUntil => exact ⟨rfl,rfl,fun _ => trivial⟩
  | sold k token now => exact ⟨rfl,rfl,fun _ => trivial⟩

inductive TicketMove (w : TicketWorld) : TicketWorld → Prop
  | ticked (us : Nat) : TicketMove w { w with clock := w.clock + us }
  | kept (n : Nat) (c : TicketCall) (tokens : List String) : (w.callOf n).Keeps c →
      (∀ token ∈ w.tokens, token ∈ tokens) → TicketMove w { w.put n c with tokens }
  | applied (n : Nat) (op : SeatOp) (row : SeatRow) (c : TicketCall) : w.call n = none →
      w.Applies op row c → (w.seats op.seatId).held = none →
      TicketMove w { w.put n c with
        seats := w.seats.overwrite op.seatId row
        tokens := op.given ++ w.tokens
        history := w.history ++ [(n,op)] }
  | wrote (n k : Nat) (row : SeatRow) (c : TicketCall) : (w.seats k).version n = some row →
      (w.callOf n).Writes k row c → (∀ token, c.token = some token → token ∉ w.tokens) →
      TicketMove w { w.put n c with
        seats := w.seats.put n k (c.write row)
        tokens := c.token.toList ++ w.tokens }
  | committed (n : Nat) (result : TicketCall) : (w.callOf n).Commits result →
      TicketMove w (w.commit n (w.callOf n) result)
  | rolledBack (n : Nat) (result : TicketCall) :
      (∀ ops, (w.callOf n).Reports ops → result.Reports ops) → result.Released →
      TicketMove w (w.rollback n result)

theorem apply_move {op : SeatOp} {row : SeatRow} {tokens : List String} (hn : w.call n = none)
    (happlies : w.Applies op row c) (htokens : tokens = op.given ++ w.tokens)
    (h : { w with tokens }.apply n op.seatId row op c = some w') : TicketMove w w' := by
  unfold TicketWorld.apply at h
  subst htokens
  split at h
  · cases h
  · rename_i hheld
    cases h
    exact .applied n op row c hn happlies hheld

theorem attemptConditionalReservation_move {seatId : Nat} {buyer token : String}
    {reservedUntil : Int} (hn : w.call n = none) (htoken : token ∉ w.tokens)
    (h : w.attemptConditionalReservation n seatId buyer token reservedUntil = some w') :
    TicketMove w w' := by
  unfold TicketWorld.attemptConditionalReservation at h
  dsimp only at h
  split at h
  · rename_i hfree
    exact apply_move hn (.reserved seatId buyer token reservedUntil hfree.2 htoken) rfl h
  · cases h
    refine .kept n _ _ ?_ fun _ => List.mem_cons_of_mem _
    rw [callOf_none hn]
    exact ⟨rfl,fun _ _ _ => rfl,rfl,fun _ => id,fun _ => id⟩

theorem completePayment_move {seatId : Nat} {token : String} {now : Int} (hn : w.call n = none)
    (h : w.completePayment n seatId token now = some w') : TicketMove w w' := by
  unfold TicketWorld.completePayment at h
  split at h
  · rename_i hpay
    exact apply_move hn (.sold seatId token now hpay.2) rfl h
  · cases h
    refine .kept n _ _ ?_ fun _ => id
    rw [callOf_none hn]
    exact ⟨rfl,fun _ _ _ => rfl,rfl,fun _ => id,fun _ => id⟩

theorem selectForUpdate_move {seatId : Nat} {buyer : String}
    (hc : w.call n = some (.rowLock seatId buyer .selecting))
    (h : w.selectForUpdate n seatId buyer = some w') : TicketMove w w' := by
  unfold TicketWorld.selectForUpdate at h
  split at h
  · split at h
    · cases h
    · rename_i row hversion
      cases h
      split
      · rename_i hfree
        refine .wrote n seatId row _ hversion ?_ nofun
        rw [callOf_eq hc]
        exact .available buyer hfree
      · refine .wrote n seatId row _ hversion ?_ nofun
        rw [callOf_eq hc]
        exact .taken buyer
  · cases h
    refine .kept n _ _ ?_ fun _ => id
    rw [callOf_eq hc]
    exact ⟨rfl,fun _ _ _ => rfl,rfl,fun _ => id,fun _ => id⟩

theorem query_move {token : String} {reservedUntil : Int} (hc : w.call n = some c)
    (h : w.query n token reservedUntil c = some w') : TicketMove w w' := by
  unfold TicketWorld.query at h
  split at h
  · exact selectForUpdate_move hc h
  · split at h
    · cases h
    · rename_i buyer htoken
      unfold TicketWorld.updateSeat at h
      split at h
      · cases h
      · rename_i row hversion
        cases h
        refine .wrote n _ row _ hversion ?_ ?_
        · rw [callOf_eq hc]
          exact .updated _ token reservedUntil
        · intro token' heq
          cases heq
          exact htoken
  · cases h
    have hmove := TicketMove.committed (w := w) n _ (by
      rw [callOf_eq hc]
      exact .reserved _ _ _ _)
    rw [callOf_eq hc] at hmove
    exact hmove
  · cases h
    refine .rolledBack n _ ?_ ⟨rfl,rfl,fun _ => trivial⟩
    rw [callOf_eq hc]
    exact fun _ => id
  · cases h
    have hmove := TicketMove.committed (w := w) n _ (by
      rw [callOf_eq hc]
      exact .expired _ _)
    rw [callOf_eq hc] at hmove
    exact hmove
  · cases h

theorem expireSeat_move {now : Int} {todo : List Nat} {expired : List (Nat × Option String)}
    (hc : w.call n = some (.expiring now todo expired))
    (h : w.expireSeat n k now todo expired = some w') : TicketMove w w' := by
  unfold TicketWorld.expireSeat at h
  split at h
  · cases h
  · rename_i row hversion
    split at h
    · rename_i hexpirable
      cases h
      refine .wrote n k row _ hversion ?_ nofun
      rw [callOf_eq hc]
      exact .expired now todo _ expired hexpirable
    · cases h
      refine .kept n _ _ ?_ fun _ => id
      rw [callOf_eq hc]
      exact ⟨rfl,fun _ _ _ => rfl,rfl,fun _ => id,fun _ => id⟩

theorem ticketStep_move {e : TicketEvent} (h : ticketStep w e = some w') : TicketMove w w' := by
  unfold ticketStep at h
  cases e with
  | attemptConditionalReservation n seatId buyer token reservedUntil =>
    dsimp only at h
    split at h
    · cases h
    · rename_i hn
      split at h
      · cases h
      · rename_i htoken
        exact attemptConditionalReservation_move hn htoken h
  | attemptRowLockReservation n seatId buyer =>
    dsimp only at h
    split at h
    · cases h
    · rename_i hn
      cases h
      refine .kept n _ _ ?_ fun _ => id
      rw [callOf_none hn]
      exact ⟨rfl,fun _ _ _ => rfl,rfl,fun _ => id,fun _ => id⟩
  | completePayment n seatId token now =>
    dsimp only at h
    split at h
    · cases h
    · rename_i hn
      split at h
      · exact completePayment_move hn h
      · cases h
  | expireReservations n now =>
    dsimp only at h
    split at h
    · cases h
    · rename_i hn
      split at h
      · cases h
        refine .kept n _ _ ?_ fun _ => id
        rw [callOf_none hn]
        exact ⟨rfl,nofun,rfl,fun _ _ => ⟨List.nodup_nil,nofun⟩,fun _ => id⟩
      · cases h
  | query n token reservedUntil =>
    dsimp only at h
    split at h
    · rename_i c hc
      exact query_move hc h
    · cases h
  | expireSeat n k =>
    dsimp only at h
    split at h
    · rename_i now todo expired hc
      split at h
      · exact expireSeat_move hc h
      · cases h
    · cases h
  | abort n =>
    dsimp only at h
    split at h
    · rename_i hc
      cases h
      refine .rolledBack n _ ?_ ⟨rfl,rfl,fun _ => trivial⟩
      rw [callOf_eq hc]
      exact fun _ => id
    · rename_i hc
      cases h
      refine .rolledBack n _ ?_ ⟨rfl,rfl,fun _ => trivial⟩
      rw [callOf_eq hc]
      exact fun _ => id
    · cases h
  | advance us =>
    cases h
    exact .ticked us

structure TicketWorld.Locked (w : TicketWorld) : Prop where
  held : ∀ n k v, (w.seats k).held = some (n,v) ↔
    k ∈ (w.callOf n).locked ∧ v = (w.callOf n).write (w.row k)
  valid : ∀ n, (w.callOf n).Valid w.row

private theorem TicketCall.Writes.locked {row : SeatRow} (h : c.Writes k row c') (m : Nat) :
    m ∈ c'.locked ↔ m = k ∨ m ∈ c.locked := by
  cases h with
  | available buyer hfree => simp [TicketCall.locked]
  | taken buyer => simp [TicketCall.locked]
  | updated buyer token reservedUntil => simp [TicketCall.locked]
  | expired now todo todo' expired hexpirable =>
    unfold TicketCall.locked
    dsimp only
    rw [List.map_append,List.mem_append,or_comm]
    simp

private theorem TicketCall.Writes.write {row : SeatRow} (h : c.Writes k row c') {m : Nat}
    (hm : m ≠ k)
    (hlocked : m ∈ c.locked) (seat : SeatRow) : c'.write seat = c.write seat := by
  cases h with
  | available buyer hfree => rfl
  | taken buyer => rfl
  | updated buyer token reservedUntil => exact absurd (List.mem_singleton.mp hlocked) hm
  | expired now todo todo' expired hexpirable => rfl

/-- A statement meets the committed row, even where the call has the lock. -/
theorem TicketCall.Writes.committed {row seat : SeatRow} (h : c.Writes k row c')
    (hlocked : k ∈ c.locked) (hrow : row = c.write seat) : row = seat := by
  cases h with
  | available buyer hfree => cases hlocked
  | taken buyer => cases hlocked
  | updated buyer token reservedUntil => exact hrow
  | expired now todo todo' expired hexpirable =>
    rw [hrow] at hexpirable
    cases hexpirable

private theorem TicketCall.Writes.valid {rows : Nat → SeatRow} (h : c.Writes k (rows k) c')
    (hrow : k ∈ c.locked → rows k = c.write (rows k)) (hvalid : c.Valid rows) :
    c'.Valid rows := by
  cases h with
  | available buyer hfree => exact hfree
  | taken buyer => trivial
  | updated buyer token reservedUntil => exact hvalid
  | expired now todo todo' expired hexpirable =>
    have hnew : k ∉ expired.map Prod.fst := by
      intro hmem
      rw [hrow hmem] at hexpirable
      cases hexpirable
    refine ⟨?_,?_⟩
    · rw [List.map_append,List.nodup_append]
      refine ⟨hvalid.1,List.nodup_cons.mpr ⟨nofun,.nil⟩,?_⟩
      rintro a ha b hb rfl
      rw [List.mem_singleton.mp hb] at ha
      exact hnew ha
    · intro m token hm
      rcases List.mem_append.mp hm with hold | heq
      · exact hvalid.2 m token hold
      · cases List.mem_singleton.mp heq
        exact ⟨hexpirable,rfl⟩

namespace TicketWorld.Locked

private theorem update (h : w.Locked) (hcall : w'.call = Function.update w.call n (some c))
    (hvalid : c.Valid w'.row)
    (hself : ∀ k v, (w'.seats k).held = some (n,v) ↔ k ∈ c.locked ∧ v = c.write (w'.row k))
    (hother : ∀ k, w'.seats k = w.seats k ∨
      ∀ m v, m ≠ n → (w.seats k).held ≠ some (m,v) ∧ (w'.seats k).held ≠ some (m,v)) :
    w'.Locked := by
  have hkeep : ∀ m k, m ≠ n → k ∈ (w.callOf m).locked → w'.seats k = w.seats k := by
    intro m k hm hk
    rcases hother k with heq | hfree
    · exact heq
    · exact absurd ((h.held m k _).mpr ⟨hk,rfl⟩) (hfree m _ hm).1
  refine ⟨?_,?_⟩
  · intro m k v
    rw [callOf_update hcall]
    by_cases hm : m = n
    · subst hm
      rw [if_pos rfl]
      exact hself k v
    · rw [if_neg hm]
      rcases hother k with heq | hfree
      · rw [TicketWorld.row,heq]
        exact h.held m k v
      · refine iff_of_false (hfree m v hm).2 ?_
        rintro ⟨hk,_⟩
        exact (hfree m _ hm).1 ((h.held m k _).mpr ⟨hk,rfl⟩)
  · intro m
    rw [callOf_update hcall]
    by_cases hm : m = n
    · rw [if_pos hm]
      exact hvalid
    · rw [if_neg hm]
      refine (h.valid m).congr fun k hk => ?_
      rw [TicketWorld.row,hkeep m k hm hk]
      rfl

private theorem version_write (h : w.Locked) {row : SeatRow}
    (hversion : (w.seats k).version n = some row) (hk : k ∈ (w.callOf n).locked) :
    row = (w.callOf n).write (w.row k) := by
  have hheld := (h.held n k _).mpr ⟨hk,rfl⟩
  rcases of_version hversion with ⟨hfree,_⟩ | hown
  · rw [hfree] at hheld
    cases hheld
  · rw [hown] at hheld
    exact congrArg Prod.snd (Option.some.inj hheld)

private theorem version_eq (h : w.Locked) {row : SeatRow}
    (hversion : (w.seats k).version n = some row)
    (hwrites : (w.callOf n).Writes k row c) : row = w.row k := by
  rcases of_version hversion with ⟨_,heq⟩ | hown
  · exact heq
  · have hlocked := (h.held n k row).mp hown
    exact hwrites.committed hlocked.1 hlocked.2

private theorem ended (h : w.Locked) (hcall : w'.call = Function.update w.call n (some c))
    (hc : c.Released)
    (hseats : ∀ k, w'.seats k = w.seats k ∧ (∀ v, (w.seats k).held ≠ some (n,v)) ∨
      ∃ v, (w.seats k).held = some (n,v) ∧ (w'.seats k).held = none) : w'.Locked := by
  refine h.update hcall (hc.valid _) ?_ ?_
  · intro k v
    rw [hc.locked]
    refine iff_of_false ?_ nofun
    rcases hseats k with ⟨heq,hfree⟩ | ⟨_,_,hnone⟩
    · rw [heq]
      exact hfree v
    · rw [hnone]
      nofun
  · intro k
    rcases hseats k with ⟨heq,_⟩ | ⟨u,hu,hnone⟩
    · exact .inl heq
    · refine .inr fun m v hm => ⟨?_,?_⟩
      · rw [hu]
        intro heq
        exact hm (congrArg Prod.fst (Option.some.inj heq)).symm
      · rw [hnone]
        nofun

private theorem applied (h : w.Locked) (hcall : w'.call = Function.update w.call n (some c))
    (hn : w.call n = none) (hc : c.Released)
    (hfree : (w.seats k).held = none) {row : SeatRow}
    (hseats : w'.seats = w.seats.overwrite k row) : w'.Locked := by
  have hunheld : ∀ m v, (w'.seats k).held ≠ some (m,v) := by
    intro m v
    rw [hseats,overwrite_self]
    nofun
  refine h.update hcall (hc.valid _) ?_ ?_
  · intro j v
    rw [hc.locked]
    refine iff_of_false ?_ nofun
    by_cases hj : j = k
    · subst hj
      exact hunheld n v
    · rw [hseats,overwrite_of_ne _ _ hj,h.held,callOf_none hn]
      nofun
  · intro j
    by_cases hj : j = k
    · subst hj
      refine .inr fun m v _ => ⟨?_,hunheld m v⟩
      rw [hfree]
      nofun
    · exact .inl (by rw [hseats,overwrite_of_ne _ _ hj])

private theorem wrote (h : w.Locked) (hcall : w'.call = Function.update w.call n (some c))
    {row : SeatRow} (hversion : (w.seats k).version n = some row)
    (hwrites : (w.callOf n).Writes k row c)
    (hseats : w'.seats = w.seats.put n k (c.write row)) : w'.Locked := by
  have hrow : row = w.row k := h.version_eq hversion hwrites
  have hsame : w'.row = w.row := by
    funext m
    rw [TicketWorld.row,hseats,committed_put]
    rfl
  have hother : ∀ m v, m ≠ n → (w.seats k).held ≠ some (m,v) := by
    intro m v hm heq
    rcases of_version hversion with ⟨hfree,_⟩ | hown
    · rw [hfree] at heq
      cases heq
    · rw [hown] at heq
      exact hm (congrArg Prod.fst (Option.some.inj heq)).symm
  have hwrite := h.version_write hversion
  subst hrow
  refine h.update hcall ?_ ?_ ?_
  · rw [hsame]
    exact hwrites.valid hwrite (h.valid n)
  · intro m v
    rw [hsame,hwrites.locked]
    by_cases hm : m = k
    · subst hm
      rw [hseats,put_self]
      simp [eq_comm]
    · rw [hseats,put_of_ne _ _ _ hm,h.held]
      simp only [hm,false_or]
      refine and_congr_right fun hmem => ?_
      rw [hwrites.write hm hmem]
  · intro m
    by_cases hm : m = k
    · subst hm
      refine .inr fun u v hu => ⟨hother u v hu,?_⟩
      rw [hseats,put_self]
      intro heq
      exact hu (congrArg Prod.fst (Option.some.inj heq)).symm
    · exact .inl (by rw [hseats,put_of_ne _ _ _ hm])

theorem move (h : w.Locked) (hm : TicketMove w w') : w'.Locked := by
  cases hm with
  | ticked us => exact ⟨h.held,h.valid⟩
  | kept n c tokens hkeeps htokens =>
    refine h.update rfl (hkeeps.valid _ (h.valid n)) ?_ fun _ => .inl rfl
    intro k v
    rw [hkeeps.locked]
    refine (h.held n k v).trans (and_congr_right fun hk => ?_)
    rw [hkeeps.write k hk]
    rfl
  | applied n op row c hn happlies hheld =>
    exact h.applied rfl hn happlies.released hheld rfl
  | wrote n k row c hversion hwrites htoken => exact h.wrote rfl hversion hwrites rfl
  | committed n result hcommits =>
    refine h.ended rfl hcommits.released fun k => ?_
    rcases commit_cases w.seats n k with hkeep | ⟨v,hv,heq⟩
    · exact .inl hkeep
    · exact .inr ⟨v,hv,congrArg VersionedRow.held heq⟩
  | rolledBack n result hreports hresult =>
    refine h.ended rfl hresult fun k => ?_
    rcases rollback_cases w.seats n k with hkeep | ⟨v,hv,heq⟩
    · exact .inl hkeep
    · exact .inr ⟨v,hv,congrArg VersionedRow.held heq⟩

end TicketWorld.Locked

end SystemsLab.Ticketing
