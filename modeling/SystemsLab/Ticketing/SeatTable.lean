import SystemsLab.Framework.Transition

/-!
# Seats as an atomic state machine

What the reservation system is for, without transactions: a seat is reserved with a fresh token,
paid for with that token while the hold lasts, or released when the hold has run out.
-/

namespace SystemsLab.Ticketing

inductive SeatStatus
  | AVAILABLE
  | RESERVED
  | SOLD
  deriving DecidableEq, Repr

structure SeatRow where
  status : SeatStatus := .AVAILABLE
  reservationToken : Option String := none
  reservedBy : Option String := none
  reservedUntil : Option Int := none
  deriving DecidableEq, Repr

namespace SeatRow

def reserve (row : SeatRow) (reservationToken buyer : String) (reservedUntil : Int) : SeatRow :=
  { row with
    status := .RESERVED
    reservationToken := some reservationToken
    reservedBy := some buyer
    reservedUntil := some reservedUntil }

def sell (row : SeatRow) : SeatRow := { row with status := .SOLD }

def release (row : SeatRow) : SeatRow :=
  { row with
    status := .AVAILABLE
    reservationToken := none
    reservedBy := none
    reservedUntil := none }

/-- `status = 'RESERVED' AND reservation_token = $2 AND reserved_until > now()`. -/
def payable (row : SeatRow) (reservationToken : String) (now : Int) : Bool :=
  row.status == .RESERVED && row.reservationToken == some reservationToken &&
    row.reservedUntil.any fun t => decide (now < t)

/-- `status = 'RESERVED' AND reserved_until < now()`. -/
def expirable (row : SeatRow) (now : Int) : Bool :=
  row.status == .RESERVED && row.reservedUntil.any fun t => decide (t < now)

/-- The changes of status that the state machine has. -/
inductive Changes : SeatRow → SeatRow → Prop
  | reserved {row row' : SeatRow} : row.status = .AVAILABLE → row'.status = .RESERVED →
      Changes row row'
  | sold {row row' : SeatRow} : row.status = .RESERVED → row'.status = .SOLD → Changes row row'
  | released {row row' : SeatRow} : row.status = .RESERVED → row'.status = .AVAILABLE →
      Changes row row'

theorem of_payable {row : SeatRow} {token : String} {now : Int}
    (h : row.payable token now = true) : row.status = .RESERVED ∧
      row.reservationToken = some token ∧ ∃ t, row.reservedUntil = some t ∧ now < t := by
  simp only [payable,Bool.and_eq_true,beq_iff_eq,Option.any_eq_true,decide_eq_true_eq] at h
  exact ⟨h.1.1,h.1.2,h.2⟩

theorem of_expirable {row : SeatRow} {now : Int} (h : row.expirable now = true) :
    row.status = .RESERVED ∧ ∃ t, row.reservedUntil = some t ∧ t < now := by
  simp only [expirable,Bool.and_eq_true,beq_iff_eq,Option.any_eq_true,decide_eq_true_eq] at h
  exact h

end SeatRow

/-- `tokens` are those that have been given out. -/
structure SeatTable where
  rows : Nat → SeatRow
  tokens : List String

inductive SeatOp
  | reserve (seatId : Nat) (reservationToken buyer : String) (reservedUntil : Int)
  | pay (seatId : Nat) (reservationToken : String) (now : Int)
  | expire (seatId : Nat) (reservationToken : Option String) (now : Int)
  deriving DecidableEq, Repr

def SeatOp.seatId : SeatOp → Nat
  | reserve k _ _ _ => k
  | pay k _ _ => k
  | expire k _ _ => k

def SeatTable.put (t : SeatTable) (k : Nat) (row : SeatRow) : SeatTable :=
  { t with rows := Function.update t.rows k row }

def seatStep (t : SeatTable) : SeatOp → Option SeatTable
  | .reserve k token buyer reservedUntil =>
    if (t.rows k).status = .AVAILABLE ∧ token ∉ t.tokens then
      some { t.put k ((t.rows k).reserve token buyer reservedUntil) with
        tokens := token::t.tokens }
    else none
  | .pay k token now =>
    if (t.rows k).payable token now then some (t.put k (t.rows k).sell) else none
  | .expire k token now =>
    if (t.rows k).expirable now ∧ (t.rows k).reservationToken = token then
      some (t.put k (t.rows k).release)
    else none

/-- The hold that a reservation of seat `k` gives. -/
def SeatOp.hold (k : Nat) : SeatOp → Option (String × Int)
  | reserve j token _ reservedUntil => if j = k then some (token,reservedUntil) else none
  | _ => none

/-- The latest hold on a seat: of the last reservation, or what was in its row before. -/
def SeatTable.latestHold (first : SeatTable) (ops : List SeatOp) (k : Nat) :
    Option String × Option Int :=
  match (ops.filterMap (SeatOp.hold k)).getLast? with
  | some (token,reservedUntil) => (some token,some reservedUntil)
  | none => ((first.rows k).reservationToken,(first.rows k).reservedUntil)

/-- What a history of operations says about the rows it leads to. -/
structure SeatTable.Legal (first : SeatTable) (ops : List SeatOp) (t : SeatTable) : Prop where
  hold : ∀ k, (t.rows k).status ≠ .AVAILABLE →
    ((t.rows k).reservationToken,(t.rows k).reservedUntil) = first.latestHold ops k
  paid : ∀ k token now, .pay k token now ∈ ops → (t.rows k).status = .SOLD ∧
    (t.rows k).reservationToken = some token ∧ ∃ u, (t.rows k).reservedUntil = some u ∧ now < u
  expired : ∀ k token now, .expire k (some token) now ∈ ops →
    token ∈ t.tokens ∧ (t.rows k).reservationToken ≠ some token
  tokens : ∀ k token, (t.rows k).reservationToken = some token → token ∈ t.tokens
  final : ops.Pairwise fun a b => ∀ token now, a = .pay a.seatId token now → a.seatId ≠ b.seatId

variable {first t t' : SeatTable} {ops : List SeatOp} {op : SeatOp} {k : Nat}

private theorem seatStep_writes (h : seatStep t op = some t') :
    (t.rows op.seatId).status ≠ .SOLD ∧ ∀ k, k ≠ op.seatId → t'.rows k = t.rows k := by
  unfold seatStep at h
  cases op with
  | reserve k token buyer reservedUntil =>
    dsimp only at h
    split at h
    · rename_i hfree
      cases h
      refine ⟨?_,fun m hm => Function.update_of_ne hm _ _⟩
      show (t.rows k).status ≠ .SOLD
      rw [hfree.1]
      nofun
    · cases h
  | pay k token now =>
    dsimp only at h
    split at h
    · rename_i hpay
      cases h
      refine ⟨?_,fun m hm => Function.update_of_ne hm _ _⟩
      show (t.rows k).status ≠ .SOLD
      rw [(SeatRow.of_payable hpay).1]
      nofun
    · cases h
  | expire k token now =>
    dsimp only at h
    split at h
    · rename_i hexpire
      cases h
      refine ⟨?_,fun m hm => Function.update_of_ne hm _ _⟩
      show (t.rows k).status ≠ .SOLD
      rw [(SeatRow.of_expirable hexpire.1).1]
      nofun
    · cases h

private theorem latestHold_append (first : SeatTable) (ops : List SeatOp) (op : SeatOp) (k : Nat) :
    first.latestHold (ops ++ [op]) k = match op.hold k with
      | some (token,reservedUntil) => (some token,some reservedUntil)
      | none => first.latestHold ops k := by
  unfold SeatTable.latestHold
  rw [List.filterMap_append]
  cases hop : op.hold k with
  | none => simp [hop]
  | some hold => simp [hop]

private theorem hold_of_ne (hk : k ≠ op.seatId) : op.hold k = none := by
  cases op with
  | reserve j token buyer reservedUntil => exact if_neg (Ne.symm hk)
  | pay j token now => rfl
  | expire j token now => rfl

namespace SeatTable.Legal

private theorem nil
    (h : ∀ k token, (first.rows k).reservationToken = some token → token ∈ first.tokens) :
    first.Legal [] first :=
  ⟨fun _ _ => rfl,nofun,nofun,h,.nil⟩

/-- What stays on the other seats, whatever the operation. -/
theorem snoc (h : first.Legal ops t) (hstep : seatStep t op = some t') {row : SeatRow}
    (hrow : t'.rows op.seatId = row) (htokens : ∀ token ∈ t.tokens, token ∈ t'.tokens)
    (hhold : row.status ≠ .AVAILABLE →
      (row.reservationToken,row.reservedUntil) = first.latestHold (ops ++ [op]) op.seatId)
    (hpaid : ∀ token now, op = .pay op.seatId token now →
      row.status = .SOLD ∧ row.reservationToken = some token ∧
        ∃ u, row.reservedUntil = some u ∧ now < u)
    (hexpired : ∀ token now, .expire op.seatId (some token) now ∈ ops ++ [op] →
      token ∈ t'.tokens ∧ row.reservationToken ≠ some token)
    (hknown : ∀ token, row.reservationToken = some token → token ∈ t'.tokens) :
    first.Legal (ops ++ [op]) t' := by
  subst hrow
  obtain ⟨hopen,hothers⟩ := seatStep_writes hstep
  have hunpaid : ∀ j token now, .pay j token now ∈ ops → j ≠ op.seatId := by
    rintro j token now hmem rfl
    exact hopen (h.paid _ token now hmem).1
  refine ⟨?_,?_,?_,?_,?_⟩
  · intro j hj
    by_cases hk : j = op.seatId
    · subst hk
      exact hhold hj
    · rw [latestHold_append,hold_of_ne hk,hothers j hk]
      rw [hothers j hk] at hj
      exact h.hold j hj
  · intro j token now hmem
    rcases List.mem_append.mp hmem with hold | hnew
    · rw [hothers j (hunpaid j token now hold)]
      exact h.paid j token now hold
    · have heq := List.mem_singleton.mp hnew
      subst heq
      exact hpaid token now rfl
  · intro j token now hmem
    by_cases hk : j = op.seatId
    · subst hk
      exact hexpired token now hmem
    · have hold : .expire j (some token) now ∈ ops := by
        rcases List.mem_append.mp hmem with hold | hnew
        · exact hold
        · have heq := List.mem_singleton.mp hnew
          exact absurd (by rw [← heq]; rfl) hk
      obtain ⟨hgiven,hne⟩ := h.expired j token now hold
      rw [hothers j hk]
      exact ⟨htokens token hgiven,hne⟩
  · intro j token hrow
    by_cases hk : j = op.seatId
    · subst hk
      exact hknown token hrow
    · rw [hothers j hk] at hrow
      exact htokens token (h.tokens j token hrow)
  · rw [List.pairwise_append]
    refine ⟨h.final,List.pairwise_singleton _ _,?_⟩
    intro a ha b hb token now heq
    rw [List.mem_singleton.mp hb]
    rw [heq] at ha
    exact hunpaid a.seatId token now ha

theorem step (h : first.Legal ops t) (hs : seatStep t op = some t') :
    first.Legal (ops ++ [op]) t' := by
  have hs' := hs
  unfold seatStep at hs
  cases op with
  | reserve k token buyer reservedUntil =>
    dsimp only at hs
    split at hs
    · rename_i hfree
      cases hs
      refine h.snoc hs' (Function.update_self _ _ _) (fun _ => List.mem_cons_of_mem _) ?_ nofun ?_
        ?_
      · intro _
        have hhold : (SeatOp.reserve k token buyer reservedUntil).hold k =
            some (token,reservedUntil) := if_pos rfl
        rw [latestHold_append]
        show _ = match (SeatOp.reserve k token buyer reservedUntil).hold k with
          | some (token,reservedUntil) => (some token,some reservedUntil)
          | none => first.latestHold ops k
        rw [hhold]
        rfl
      · intro token' now hmem
        have hold : .expire k (some token') now ∈ ops := by
          rcases List.mem_append.mp hmem with hold | hnew
          · exact hold
          · exact nomatch List.mem_singleton.mp hnew
        obtain ⟨hgiven,_⟩ := h.expired k token' now hold
        refine ⟨List.mem_cons_of_mem _ hgiven,fun heq => hfree.2 ?_⟩
        rw [show token = token' from Option.some.inj heq]
        exact hgiven
      · intro token' heq
        rw [show token = token' from Option.some.inj heq]
        exact List.mem_cons_self
    · cases hs
  | pay k token now =>
    dsimp only at hs
    split at hs
    · rename_i hpay
      cases hs
      obtain ⟨hreserved,htoken,u,hu,hlt⟩ := SeatRow.of_payable hpay
      refine h.snoc hs' (Function.update_self _ _ _) (fun _ => id) ?_ ?_ ?_ ?_
      · intro _
        rw [latestHold_append]
        exact h.hold k (by rw [hreserved]; nofun)
      · intro token' now' heq
        cases heq
        exact ⟨rfl,htoken,u,hu,hlt⟩
      · intro token' now' hmem
        have hold : .expire k (some token') now' ∈ ops := by
          rcases List.mem_append.mp hmem with hold | hnew
          · exact hold
          · exact nomatch List.mem_singleton.mp hnew
        exact h.expired k token' now' hold
      · exact h.tokens k
    · cases hs
  | expire k token now =>
    dsimp only at hs
    split at hs
    · rename_i hexpire
      cases hs
      refine h.snoc hs' (Function.update_self _ _ _) (fun _ => id) ?_ nofun ?_ nofun
      · intro hne
        exact absurd rfl hne
      · intro token' now' hmem
        refine ⟨?_,nofun⟩
        rcases List.mem_append.mp hmem with hold | hnew
        · exact (h.expired k token' now' hold).1
        · have heq := List.mem_singleton.mp hnew
          cases heq
          exact h.tokens k token' hexpire.2
    · cases hs

theorem of_run (hfirst : ∀ k token, (first.rows k).reservationToken = some token →
    token ∈ first.tokens) (hrun : run seatStep first ops = some t) : first.Legal ops t :=
  run_history (P := first.Legal) (nil hfirst) (fun _ _ _ _ h hs => h.step hs) hrun

theorem latestHold_of_pay (h : first.Legal ops t) {token : String} {now : Int}
    (hpay : .pay k token now ∈ ops) :
    ∃ u, first.latestHold ops k = (some token,some u) ∧ now < u := by
  obtain ⟨hsold,htoken,u,hu,hlt⟩ := h.paid k token now hpay
  refine ⟨u,?_,hlt⟩
  rw [← h.hold k (by rw [hsold]; nofun),htoken,hu]

/-- No reservation is both paid for and released. -/
theorem not_paid_and_expired (h : first.Legal ops t) {token : String} {now now' : Int}
    (hpay : .pay k token now ∈ ops) : .expire k (some token) now' ∉ ops :=
  fun hexpire => (h.expired k token now' hexpire).2 (h.paid k token now hpay).2.1

end SeatTable.Legal

end SystemsLab.Ticketing
