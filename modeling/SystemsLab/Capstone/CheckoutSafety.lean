import SystemsLab.Capstone.Checkout

/-!
# What concurrent checkouts leave behind

Three invariants: the lock tables describe what open transactions hold, orders and sold seats
match, and every committed row belongs to a call that returned `created`. A step is first
inverted into one of a few moves; each invariant is then a case analysis on the moves.
-/

namespace SystemsLab.Capstone

open SystemsLab.Outbox

variable {κ : Type*} {w w' : CheckoutWorld}

/-! ## Moves -/

/-- The statements that leave the committed tables and the locks alone. -/
inductive CheckoutCall.Next (w : CheckoutWorld) (c : CheckoutCall) : CheckoutPhase → Prop
  | conflicted : c.phase = .insertingOrder →
      c.input.idempotencyKey ∈ w.orders.map OrderRow.idempotencyKey → Next w c .selecting
  | missed : c.phase = .updatingSeat → Next w c .rollingBack
  | emitted (id : Nat) (uuid : String) : c.phase = .insertingEvent →
      Next w c (.committing (c.orderConfirmed id uuid))
  | selected : c.phase = .selecting →
      Next w c (.committingDuplicate
        ((rowAt OrderRow.idempotencyKey w.orders c.input.idempotencyKey).map
          fun order => (order.id,order.publicId)))

/-- The ways a call ends without having committed an order. -/
inductive CheckoutCall.Ends (c : CheckoutCall) : CheckoutResult → Prop
  | rejected (reason : String) : Ends c (.rejected reason)
  | duplicate (orderId : Nat) (orderPublicId : String) :
      c.phase = .committingDuplicate (some (orderId,orderPublicId)) →
      Ends c (.duplicate orderId orderPublicId)
  | conflictWithoutRow (message : String) : c.phase = .committingDuplicate none →
      Ends c (.thrown (.conflictWithoutRow message))
  | thrown (error : CheckoutError) : (∀ message, error ≠ .conflictWithoutRow message) →
      Ends c (.thrown error)

inductive CheckoutMove (w : CheckoutWorld) : CheckoutWorld → Prop
  | noted (reservations : List ReservationOutcome) (clock : Int) :
      CheckoutMove w { w with reservations, clock }
  | reserved (opts : ReserveSeatOpts) (token : String) (now : Int)
      (reservations : List ReservationOutcome) : w.seatLock opts.seatId = none →
      CheckoutMove w { w with
        seats := updateWhere (SeatRow.reservable opts.seatId) (SeatRow.reserve opts token now)
          w.seats
        reservations }
  | started (n : Nat) (c : CheckoutCall) (orderSeq : Nat) : w.call n = none →
      c.phase = .insertingOrder → CheckoutMove w { w.put n c with orderSeq }
  | moved (n : Nat) (c : CheckoutCall) (phase : CheckoutPhase) (outboxSeq : Nat) :
      w.call n = some c → c.Next w phase →
      CheckoutMove w { w.put n { c with phase } with outboxSeq }
  | inserted (n : Nat) (c : CheckoutCall) : w.call n = some c → c.phase = .insertingOrder →
      c.input.idempotencyKey ∉ w.orders.map OrderRow.idempotencyKey →
      w.keyLock c.input.idempotencyKey = none →
      c.orderPublicId ∉ w.orders.map OrderRow.publicId →
      w.publicIdLock c.orderPublicId = none →
      CheckoutMove w { w.put n { c with phase := .updatingSeat } with
        keyLock := w.keyLock.acquire c.input.idempotencyKey n
        publicIdLock := w.publicIdLock.acquire c.orderPublicId n }
  | updated (n : Nat) (c : CheckoutCall) (row : SeatRow) : w.call n = some c →
      c.phase = .updatingSeat → row ∈ w.seats → row.id = c.input.seatId →
      row.status = .RESERVED → w.seatLock c.input.seatId = none →
      CheckoutMove w { w.put n { c with phase := .insertingEvent } with
        seatLock := w.seatLock.acquire c.input.seatId n }
  | finished (n : Nat) (c : CheckoutCall) (result : CheckoutResult) : w.call n = some c →
      (∀ r, c.phase ≠ .returned r) → c.Ends result → CheckoutMove w (w.finish n c result)
  | committed (n : Nat) (c : CheckoutCall) (event : OutboxRow EventPayload) :
      w.call n = some c → c.phase = .committing event →
      CheckoutMove w (w.commitOrder n c event)

theorem insertOrder_move {n : Nat} {c : CheckoutCall} (hc : w.call n = some c)
    (hp : c.phase = .insertingOrder) (h : insertOrder w n c = some w') : CheckoutMove w w' := by
  have hopen : ∀ r, c.phase ≠ .returned r := by
    rw [hp]
    exact nofun
  simp only [insertOrder] at h
  split at h
  · cases h
    exact .finished n c _ hc hopen (.thrown _ nofun)
  · split at h
    · rename_i hkey
      cases h
      exact .moved n c _ w.outboxSeq hc (.conflicted hp hkey)
    · rename_i hkey
      split at h
      · cases h
      · rename_i hlock
        split at h
        · cases h
          exact .finished n c _ hc hopen (.thrown _ nofun)
        · rename_i hpublic
          split at h
          · cases h
          · rename_i hpublicLock
            split at h
            · cases h
              rw [Option.not_isSome_iff_eq_none] at hlock hpublicLock
              exact .inserted n c hc hp hkey hlock hpublic hpublicLock
            · cases h
              exact .finished n c _ hc hopen (.thrown _ nofun)

private theorem SeatRow.of_sellable {input : IdempotentCheckoutInput} {now : Int} {row : SeatRow}
    (h : row.sellable input now = true) : row.id = input.seatId ∧ row.status = .RESERVED := by
  simp only [SeatRow.sellable,Bool.and_eq_true,beq_iff_eq] at h
  exact ⟨h.1.1.1.1,h.1.1.1.2⟩

theorem updateSeat_move {n : Nat} {c : CheckoutCall} (hc : w.call n = some c)
    (hp : c.phase = .updatingSeat) (h : updateSeat w n c = some w') : CheckoutMove w w' := by
  unfold updateSeat at h
  split at h
  · rename_i hcount
    split at h
    · cases h
    · rename_i hlock
      cases h
      have hpos : 0 < w.seats.countP (SeatRow.sellable c.input c.now) := by omega
      obtain ⟨row,hrow,hsell⟩ := List.countP_pos_iff.mp hpos
      have hfacts := SeatRow.of_sellable hsell
      exact .updated n c row hc hp hrow hfacts.1 hfacts.2 hlock
  · cases h
    exact .moved n c _ w.outboxSeq hc (.missed hp)

theorem checkoutIdempotent_move {n : Nat} {c : CheckoutCall} {uuid : String}
    (hc : w.call n = some c) (h : checkoutIdempotent w n c uuid = some w') :
    CheckoutMove w w' := by
  unfold checkoutIdempotent at h
  split at h
  · rename_i hp
    exact insertOrder_move hc hp h
  · rename_i hp
    exact updateSeat_move hc hp h
  · rename_i hp
    cases h
    exact .moved n c _ _ hc (.emitted _ uuid hp)
  · rename_i event hp
    cases h
    exact .committed n c event hc hp
  · rename_i hp
    cases h
    exact .finished n c _ hc (by rw [hp]; exact nofun) (.rejected _)
  · rename_i hp
    cases h
    exact .moved n c _ w.outboxSeq hc (.selected hp)
  · rename_i orderId orderPublicId hp
    cases h
    exact .finished n c _ hc (by rw [hp]; exact nofun) (.duplicate _ _ hp)
  · rename_i hp
    cases h
    exact .finished n c _ hc (by rw [hp]; exact nofun) (.conflictWithoutRow _ hp)
  · cases h

theorem checkoutStep_move {e : CheckoutEvent} (h : checkoutStep w e = some w') :
    CheckoutMove w w' := by
  cases e with
  | reserve opts token now =>
    simp only [checkoutStep,reserveSeat] at h
    split at h
    · split at h
      · split at h
        · cases h
        · rename_i hlock
          cases h
          exact .reserved opts token now _ hlock
      · cases h
        exact .noted _ w.clock
    · cases h
  | start n input uuid =>
    simp only [checkoutStep] at h
    split at h
    · cases h
    · rename_i hn
      cases h
      exact .started n _ _ hn rfl
  | query n uuid =>
    simp only [checkoutStep] at h
    split at h
    · rename_i c hc
      exact checkoutIdempotent_move hc h
    · cases h
  | abort n =>
    simp only [checkoutStep] at h
    split at h
    · rename_i c hc
      split at h
      · cases h
      · rename_i hopen
        cases h
        exact .finished n c _ hc hopen (.thrown _ nofun)
    · cases h
  | advance us =>
    cases h
    exact .noted w.reservations _

/-! ## The lock tables -/

structure CheckoutWorld.Locked (w : CheckoutWorld) : Prop where
  keys : UniqueIndex (w.orders.map OrderRow.idempotencyKey) w.keyLock
    (holdings w.call CheckoutCall.heldKey)
  publicIds : UniqueIndex (w.orders.map OrderRow.publicId) w.publicIdLock
    (holdings w.call CheckoutCall.heldPublicId)
  seats : w.seatLock.Held (holdings w.call CheckoutCall.heldSeat)

private theorem CheckoutCall.Next.inserted {c : CheckoutCall} {phase : CheckoutPhase}
    (h : c.Next w phase) : phase.inserted = c.phase.inserted := by
  cases h with
  | conflicted hp _ => rw [hp]; rfl
  | missed hp => rw [hp]; rfl
  | emitted id uuid hp => rw [hp]; rfl
  | selected hp => rw [hp]; rfl

private theorem CheckoutCall.Next.sold {c : CheckoutCall} {phase : CheckoutPhase}
    (h : c.Next w phase) : phase.sold = c.phase.sold := by
  cases h with
  | conflicted hp _ => rw [hp]; rfl
  | missed hp => rw [hp]; rfl
  | emitted id uuid hp => rw [hp]; rfl
  | selected hp => rw [hp]; rfl

theorem CheckoutWorld.Locked.keep {n : Nat} {c : CheckoutCall} (h : w.Locked)
    (hcall : w'.call = Function.update w.call n (some c)) (horders : w'.orders = w.orders)
    (hkeyLock : w'.keyLock = w.keyLock) (hpublicIdLock : w'.publicIdLock = w.publicIdLock)
    (hseatLock : w'.seatLock = w.seatLock)
    (hkey : c.heldKey = holdings w.call CheckoutCall.heldKey n)
    (hpublicId : c.heldPublicId = holdings w.call CheckoutCall.heldPublicId n)
    (hseat : c.heldSeat = holdings w.call CheckoutCall.heldSeat n) : w'.Locked := by
  constructor
  · rw [horders,hkeyLock,hcall]
    exact h.keys.keepCall hkey
  · rw [horders,hpublicIdLock,hcall]
    exact h.publicIds.keepCall hpublicId
  · rw [hseatLock,hcall]
    exact h.seats.keepCall hseat

private theorem heldKey_of_inserted {c : CheckoutCall} (h : c.phase.inserted = true) :
    c.heldKey = some c.input.idempotencyKey :=
  if_pos h

private theorem heldPublicId_of_inserted {c : CheckoutCall} (h : c.phase.inserted = true) :
    c.heldPublicId = some c.orderPublicId :=
  if_pos h

private theorem heldKey_of_not_inserted {c : CheckoutCall} (h : c.phase.inserted = false) :
    c.heldKey = none := by
  rw [CheckoutCall.heldKey,h]
  rfl

private theorem heldPublicId_of_not_inserted {c : CheckoutCall} (h : c.phase.inserted = false) :
    c.heldPublicId = none := by
  rw [CheckoutCall.heldPublicId,h]
  rfl

private theorem heldSeat_of_sold {c : CheckoutCall} (h : c.phase.sold = true) :
    c.heldSeat = some c.input.seatId :=
  if_pos h

private theorem heldSeat_of_not_sold {c : CheckoutCall} (h : c.phase.sold = false) :
    c.heldSeat = none := by
  rw [CheckoutCall.heldSeat,h]
  rfl

theorem CheckoutWorld.Locked.move (h : w.Locked) (hm : CheckoutMove w w') : w'.Locked := by
  cases hm with
  | noted => exact ⟨h.keys,h.publicIds,h.seats⟩
  | reserved => exact ⟨h.keys,h.publicIds,h.seats⟩
  | started n c seq hn hp =>
    have hnone : ∀ {κ : Type} (f : CheckoutCall → Option κ), holdings w.call f n = none :=
      fun _ => holdings_of_none hn
    apply h.keep (n := n)
    · rfl
    · rfl
    · rfl
    · rfl
    · rfl
    · rw [hnone,heldKey_of_not_inserted (by rw [hp]; rfl)]
    · rw [hnone,heldPublicId_of_not_inserted (by rw [hp]; rfl)]
    · rw [hnone,heldSeat_of_not_sold (by rw [hp]; rfl)]
  | moved n c phase seq hc hnext =>
    apply h.keep (n := n) (c := { c with phase })
    · rfl
    · rfl
    · rfl
    · rfl
    · rfl
    · rw [holdings_eq hc]
      unfold CheckoutCall.heldKey
      rw [hnext.inserted]
    · rw [holdings_eq hc]
      unfold CheckoutCall.heldPublicId
      rw [hnext.inserted]
    · rw [holdings_eq hc]
      unfold CheckoutCall.heldSeat
      rw [hnext.sold]
  | inserted n c hc hp hkey hkeyLock hpublic hpublicLock =>
    have hopen : c.phase.inserted = false := by
      rw [hp]
      rfl
    have hsold : c.phase.sold = false := by
      rw [hp]
      rfl
    constructor
    · exact h.keys.insertCall hc (heldKey_of_not_inserted hopen) hkeyLock hkey rfl
    · exact h.publicIds.insertCall hc (heldPublicId_of_not_inserted hopen) hpublicLock hpublic rfl
    · exact h.seats.keepCall ((holdings_eq hc).trans (heldSeat_of_not_sold hsold)).symm
  | updated n c row hc hp hrow hid hstatus hlock =>
    have hinserted : c.phase.inserted = true := by
      rw [hp]
      rfl
    have hsold : c.phase.sold = false := by
      rw [hp]
      rfl
    constructor
    · exact h.keys.keepCall ((holdings_eq hc).trans (heldKey_of_inserted hinserted)).symm
    · exact h.publicIds.keepCall ((holdings_eq hc).trans (heldPublicId_of_inserted hinserted)).symm
    · exact h.seats.acquireCall ((holdings_eq hc).trans (heldSeat_of_not_sold hsold)) hlock rfl
  | finished n c result hc =>
    constructor
    · exact h.keys.rollbackCall hc rfl
    · exact h.publicIds.rollbackCall hc rfl
    · exact h.seats.releaseCall hc rfl
  | committed n c event hc hp =>
    have hinserted : c.phase.inserted = true := by
      rw [hp]
      rfl
    constructor
    · show UniqueIndex ((w.orders ++ [c.order]).map _) _ _
      rw [List.map_append]
      exact h.keys.commitCall hc (heldKey_of_inserted hinserted) rfl
    · show UniqueIndex ((w.orders ++ [c.order]).map _) _ _
      rw [List.map_append]
      exact h.publicIds.commitCall hc (heldPublicId_of_inserted hinserted) rfl
    · exact h.seats.releaseCall hc rfl

/-! ## Seats and orders -/

def SeatRow.Ordered (orders : List OrderRow) (row : SeatRow) : Prop :=
  row.status = .SOLD → ∃ order ∈ orders, order.seatId = row.id

/-- Sold seats and orders match, and a seat in an open sale stays reserved. -/
structure CheckoutWorld.Booked (w : CheckoutWorld) : Prop where
  seatIds : (w.seats.map SeatRow.id).Nodup
  selling : ∀ n c, w.call n = some c → c.phase.sold = true →
    ∃ row ∈ w.seats, row.id = c.input.seatId ∧ row.status = .RESERVED
  orderSeats : (w.orders.map OrderRow.seatId).Nodup
  bought : ∀ order ∈ w.orders, ∃ row ∈ w.seats, row.id = order.seatId ∧ row.status = .SOLD ∧
    row.soldTo = some order.customerId
  sold : ∀ row ∈ w.seats, row.Ordered w.orders

theorem CheckoutWorld.Booked.keep {n : Nat} {c : CheckoutCall} (h : w.Booked)
    (hseats : w'.seats = w.seats) (horders : w'.orders = w.orders)
    (hcall : w'.call = Function.update w.call n (some c))
    (hsold : c.phase.sold = true →
      ∃ row ∈ w.seats, row.id = c.input.seatId ∧ row.status = .RESERVED) : w'.Booked := by
  constructor
  · rw [hseats]
    exact h.seatIds
  · intro m c' hc' hp
    rw [hcall] at hc'
    rw [hseats]
    by_cases hm : m = n
    · subst hm
      rw [Function.update_self] at hc'
      cases hc'
      exact hsold hp
    · rw [Function.update_of_ne hm] at hc'
      exact h.selling m c' hc' hp
  · rw [horders]
    exact h.orderSeats
  · rw [horders,hseats]
    exact h.bought
  · rw [horders,hseats]
    exact h.sold

private theorem CheckoutWorld.Booked.reserve {opts : ReserveSeatOpts} {token : String} {now : Int}
    (h : w.Booked) (hseats : w'.seats = updateWhere (SeatRow.reservable opts.seatId)
      (SeatRow.reserve opts token now) w.seats)
    (horders : w'.orders = w.orders) (hcall : w'.call = w.call) : w'.Booked := by
  have hstay : ∀ row ∈ w.seats, row.status ≠ .AVAILABLE → row ∈ w'.seats := by
    intro row hrow hstatus
    rw [hseats,mem_updateWhere]
    refine ⟨row,hrow,?_⟩
    simp [SeatRow.reservable,hstatus]
  have hid : ∀ row : SeatRow, (row.reserve opts token now).id = row.id := fun _ => rfl
  constructor
  · rw [hseats,map_updateWhere _ hid]
    exact h.seatIds
  · intro n c hc hp
    rw [hcall] at hc
    obtain ⟨row,hrow,hrowId,hstatus⟩ := h.selling n c hc hp
    exact ⟨row,hstay row hrow (by simp [hstatus]),hrowId,hstatus⟩
  · rw [horders]
    exact h.orderSeats
  · intro order horder
    rw [horders] at horder
    obtain ⟨row,hrow,hrowId,hstatus,hto⟩ := h.bought order horder
    exact ⟨row,hstay row hrow (by simp [hstatus]),hrowId,hstatus,hto⟩
  · rw [horders,hseats]
    refine forall_mem_updateWhere h.sold ?_ ?_
    · intro row _ _ _ hsold
      cases hsold
    · intro row _ hrow _
      exact hrow

theorem CheckoutWorld.Booked.commit {n : Nat} {c : CheckoutCall} (hlock : w.Locked)
    (h : w.Booked) (hc : w.call n = some c) (hp : c.phase.sold = true)
    (hseats : w'.seats = updateWhere (·.id == c.input.seatId)
      (SeatRow.sell c.input.customerId) w.seats)
    (horders : w'.orders = w.orders ++ [c.order]) {result : CheckoutResult}
    (hcall : w'.call = Function.update w.call n (some { c with phase := .returned result })) :
    w'.Booked := by
  obtain ⟨row,hrow,hrowId,hstatus⟩ := h.selling n c hc hp
  have hfresh : ∀ order ∈ w.orders, order.seatId ≠ c.input.seatId := by
    intro order horder heq
    obtain ⟨row',hrow',hrowId',hsold,_⟩ := h.bought order horder
    have hsame := eq_of_key_eq h.seatIds hrow hrow' (by rw [hrowId,hrowId',heq])
    rw [← hsame,hstatus] at hsold
    cases hsold
  have hstay : ∀ row' ∈ w.seats, row'.id ≠ c.input.seatId → row' ∈ w'.seats := by
    intro row' hrow' hne
    rw [hseats,mem_updateWhere]
    exact ⟨row',hrow',by simp [hne]⟩
  have hsell : row.sell c.input.customerId ∈ w'.seats := by
    rw [hseats,mem_updateWhere]
    exact ⟨row,hrow,by simp [hrowId]⟩
  have hid : ∀ row : SeatRow, (row.sell c.input.customerId).id = row.id := fun _ => rfl
  constructor
  · rw [hseats,map_updateWhere _ hid]
    exact h.seatIds
  · intro m c' hc' hp'
    rw [hcall] at hc'
    by_cases hm : m = n
    · subst hm
      rw [Function.update_self] at hc'
      cases hc'
      cases hp'
    · rw [Function.update_of_ne hm] at hc'
      obtain ⟨row',hrow',hrowId',hstatus'⟩ := h.selling m c' hc' hp'
      refine ⟨row',hstay row' hrow' ?_,hrowId',hstatus'⟩
      intro heq
      apply hlock.seats.others hc (heldSeat_of_sold hp) hm hc'
      rw [heldSeat_of_sold hp',← hrowId',heq]
  · rw [horders,List.map_append,List.nodup_append]
    refine ⟨h.orderSeats,List.nodup_singleton _,?_⟩
    intro a ha b hb hab
    obtain ⟨order,horder,rfl⟩ := List.mem_map.mp ha
    rw [List.mem_singleton.mp hb] at hab
    exact hfresh order horder hab
  · intro order horder
    rw [horders] at horder
    rcases List.mem_append.mp horder with hold | hnew
    · obtain ⟨row',hrow',hrowId',hsold,hto⟩ := h.bought order hold
      exact ⟨row',hstay row' hrow' (hrowId' ▸ hfresh order hold),hrowId',hsold,hto⟩
    · rw [List.mem_singleton.mp hnew]
      exact ⟨row.sell c.input.customerId,hsell,hrowId,rfl,rfl⟩
  · rw [hseats,horders]
    refine forall_mem_updateWhere h.sold ?_ ?_
    · intro row' _ _ hhit _
      have hrowId' : row'.id = c.input.seatId := by simpa using hhit
      exact ⟨c.order,by simp,hrowId'.symm⟩
    · intro row' _ hrow' _ hsold
      obtain ⟨order,horder,hseat⟩ := hrow' hsold
      exact ⟨order,List.mem_append_left _ horder,hseat⟩

theorem CheckoutWorld.Booked.move (hlock : w.Locked) (h : w.Booked) (hm : CheckoutMove w w') :
    w'.Booked := by
  cases hm with
  | noted => exact ⟨h.seatIds,h.selling,h.orderSeats,h.bought,h.sold⟩
  | reserved => exact h.reserve rfl rfl rfl
  | started n c seq hn hp =>
    refine h.keep (n := n) rfl rfl rfl ?_
    intro hsold
    rw [hp] at hsold
    cases hsold
  | moved n c phase seq hc hnext =>
    refine h.keep (n := n) rfl rfl rfl ?_
    intro hsold
    exact h.selling n c hc (hnext.sold ▸ hsold)
  | inserted n c hc hp =>
    refine h.keep (n := n) rfl rfl rfl ?_
    intro hsold
    cases hsold
  | updated n c row hc hp hrow hid hstatus hlock =>
    refine h.keep (n := n) rfl rfl rfl ?_
    intro _
    exact ⟨row,hrow,hid,hstatus⟩
  | finished n c result hc =>
    refine h.keep (n := n) rfl rfl rfl ?_
    intro hsold
    cases hsold
  | committed n c event hc hp =>
    refine Booked.commit hlock h hc ?_ rfl rfl rfl
    rw [hp]
    rfl

/-! ## Results -/

/-- What a call that has met a conflict may rely on. -/
def CheckoutCall.Found (orders : List OrderRow) (c : CheckoutCall) : Prop :=
  match c.phase with
  | .selecting => ∃ order ∈ orders, order.idempotencyKey = c.input.idempotencyKey
  | .committingDuplicate existing => ∃ order ∈ orders,
      order.idempotencyKey = c.input.idempotencyKey ∧
        existing = some (order.id,order.publicId)
  | .returned (.duplicate orderId orderPublicId) => ∃ order ∈ orders,
      order.idempotencyKey = c.input.idempotencyKey ∧ order.id = orderId ∧
        order.publicId = orderPublicId
  | .returned (.thrown (.conflictWithoutRow _)) => False
  | _ => True

/-- What a call may rely on about its commit. -/
def CheckoutCall.Accounted (commits : List CheckoutCommit) (n : Nat) (c : CheckoutCall) : Prop :=
  match c.phase with
  | .committing event => event.eventType = "OrderConfirmed" ∧
      event.payload.orderPublicId = c.orderPublicId
  | .returned (.created _ _) => ∃ x ∈ commits, x.call = n
  | _ => True

/-- Every committed row was written by a call that has returned `created`. -/
structure CheckoutWorld.Recorded (w : CheckoutWorld) : Prop where
  orders : w.orders = w.commits.map CheckoutCommit.order
  outbox : w.outbox = w.commits.map CheckoutCommit.event
  paired : ∀ x ∈ w.commits, x.event.eventType = "OrderConfirmed" ∧
    x.event.payload.orderPublicId = x.order.publicId
  created : ∀ x ∈ w.commits, ∃ c, w.call x.call = some c ∧ x.order = c.order ∧
    c.phase = .returned (.created c.orderId c.orderPublicId)
  accounted : ∀ n c, w.call n = some c → c.Accounted w.commits n
  found : ∀ n c, w.call n = some c → c.Found w.orders

private theorem CheckoutCall.Found.append {c : CheckoutCall} {orders : List OrderRow}
    (h : c.Found orders) (order : OrderRow) : c.Found (orders ++ [order]) := by
  unfold CheckoutCall.Found at h ⊢
  split <;> simp_all only
  · obtain ⟨o,ho,hkey⟩ := h
    exact ⟨o,List.mem_append_left _ ho,hkey⟩
  · obtain ⟨o,ho,hkey⟩ := h
    exact ⟨o,List.mem_append_left _ ho,hkey⟩
  · obtain ⟨o,ho,hkey⟩ := h
    exact ⟨o,List.mem_append_left _ ho,hkey⟩

private theorem CheckoutCall.Accounted.append {c : CheckoutCall} {commits : List CheckoutCommit}
    {n : Nat} (h : c.Accounted commits n) (x : CheckoutCommit) :
    c.Accounted (commits ++ [x]) n := by
  unfold CheckoutCall.Accounted at h ⊢
  split <;> simp_all only
  · trivial
  · obtain ⟨y,hy,hcall⟩ := h
    exact ⟨y,List.mem_append_left _ hy,hcall⟩

theorem CheckoutWorld.Recorded.keep {n : Nat} {c : CheckoutCall} (h : w.Recorded)
    (horders : w'.orders = w.orders) (houtbox : w'.outbox = w.outbox)
    (hcommits : w'.commits = w.commits)
    (hcall : w'.call = Function.update w.call n (some c))
    (hopen : ∀ c₀, w.call n = some c₀ → ∀ r, c₀.phase ≠ .returned r)
    (haccounted : c.Accounted w.commits n) (hfound : c.Found w.orders) : w'.Recorded := by
  constructor
  · rw [horders,hcommits]
    exact h.orders
  · rw [houtbox,hcommits]
    exact h.outbox
  · rw [hcommits]
    exact h.paired
  · intro x hx
    rw [hcommits] at hx
    obtain ⟨c₀,hc₀,horder,hreturned⟩ := h.created x hx
    refine ⟨c₀,?_,horder,hreturned⟩
    rw [hcall,Function.update_of_ne]
    · exact hc₀
    · intro hx
      rw [hx] at hc₀
      exact hopen c₀ hc₀ _ hreturned
  · intro m c' hc'
    rw [hcommits]
    rw [hcall] at hc'
    by_cases hm : m = n
    · subst hm
      rw [Function.update_self] at hc'
      cases hc'
      exact haccounted
    · rw [Function.update_of_ne hm] at hc'
      exact h.accounted m c' hc'
  · intro m c' hc'
    rw [horders]
    rw [hcall] at hc'
    by_cases hm : m = n
    · subst hm
      rw [Function.update_self] at hc'
      cases hc'
      exact hfound
    · rw [Function.update_of_ne hm] at hc'
      exact h.found m c' hc'

theorem CheckoutWorld.Recorded.commit {n : Nat} {c : CheckoutCall}
    {event : OutboxRow EventPayload} (h : w.Recorded) (hc : w.call n = some c)
    (hp : c.phase = .committing event) : (w.commitOrder n c event).Recorded := by
  have hevent := h.accounted n c hc
  rw [CheckoutCall.Accounted,hp] at hevent
  constructor
  · show w.orders ++ [c.order] = (w.commits ++ [CheckoutCommit.mk n c.order event]).map _
    rw [List.map_append,← h.orders]
    rfl
  · show w.outbox ++ [event] = (w.commits ++ [CheckoutCommit.mk n c.order event]).map _
    rw [List.map_append,← h.outbox]
    rfl
  · intro x hx
    rcases List.mem_append.mp hx with hold | hnew
    · exact h.paired x hold
    · rw [List.mem_singleton.mp hnew]
      exact hevent
  · intro x hx
    show ∃ c', Function.update w.call n _ x.call = some c' ∧ _
    rcases List.mem_append.mp hx with hold | hnew
    · obtain ⟨c₀,hc₀,horder,hreturned⟩ := h.created x hold
      refine ⟨c₀,?_,horder,hreturned⟩
      rw [Function.update_of_ne]
      · exact hc₀
      · intro hx
        rw [hx,hc] at hc₀
        cases hc₀
        rw [hp] at hreturned
        cases hreturned
    · rw [List.mem_singleton.mp hnew,Function.update_self]
      exact ⟨_,rfl,rfl,rfl⟩
  · intro m c' hc'
    change Function.update w.call n _ m = _ at hc'
    by_cases hm : m = n
    · subst hm
      rw [Function.update_self] at hc'
      cases hc'
      exact ⟨⟨m,c.order,event⟩,List.mem_append_right _ (List.mem_singleton_self _),rfl⟩
    · rw [Function.update_of_ne hm] at hc'
      exact (h.accounted m c' hc').append _
  · intro m c' hc'
    change Function.update w.call n _ m = _ at hc'
    by_cases hm : m = n
    · subst hm
      rw [Function.update_self] at hc'
      cases hc'
      trivial
    · rw [Function.update_of_ne hm] at hc'
      exact (h.found m c' hc').append _

private theorem CheckoutCall.Next.open_phase {c : CheckoutCall} {phase : CheckoutPhase}
    (h : c.Next w phase) (r : CheckoutResult) : c.phase ≠ .returned r := by
  cases h with
  | conflicted hp _ => rw [hp]; exact nofun
  | missed hp => rw [hp]; exact nofun
  | emitted id uuid hp => rw [hp]; exact nofun
  | selected hp => rw [hp]; exact nofun

/-- The fallback `SELECT` finds the order that the insert conflicted with. -/
theorem CheckoutWorld.Recorded.moved {n : Nat} {c : CheckoutCall} {phase : CheckoutPhase}
    (hlock : w.Locked) (h : w.Recorded) (hc : w.call n = some c) (hnext : c.Next w phase) :
    CheckoutCall.Accounted w.commits n { c with phase } ∧
      CheckoutCall.Found w.orders { c with phase } := by
  cases hnext with
  | conflicted hp hkey => exact ⟨trivial,by simpa [CheckoutCall.Found] using hkey⟩
  | missed hp => exact ⟨trivial,trivial⟩
  | emitted id uuid hp => exact ⟨⟨rfl,rfl⟩,trivial⟩
  | selected hp =>
    have hfound := h.found n c hc
    rw [CheckoutCall.Found,hp] at hfound
    obtain ⟨order,horder,hkey⟩ := hfound
    have hrow := rowAt_of_mem hlock.keys.nodup horder
    rw [hkey] at hrow
    refine ⟨trivial,order,horder,hkey,?_⟩
    rw [hrow]
    rfl

private theorem CheckoutWorld.Recorded.ended {n : Nat} {c : CheckoutCall} {result : CheckoutResult}
    (h : w.Recorded) (hc : w.call n = some c) (hends : c.Ends result) :
    CheckoutCall.Accounted w.commits n { c with phase := .returned result } ∧
      CheckoutCall.Found w.orders { c with phase := .returned result } := by
  have hfound := h.found n c hc
  cases hends with
  | rejected reason => exact ⟨trivial,trivial⟩
  | duplicate orderId orderPublicId hp =>
    rw [CheckoutCall.Found,hp] at hfound
    obtain ⟨order,horder,hkey,hsome⟩ := hfound
    cases hsome
    exact ⟨trivial,order,horder,hkey,rfl,rfl⟩
  | conflictWithoutRow message hp =>
    rw [CheckoutCall.Found,hp] at hfound
    obtain ⟨order,_,_,hsome⟩ := hfound
    cases hsome
  | thrown error herror =>
    cases error with
    | conflictWithoutRow message => exact absurd rfl (herror message)
    | _ => exact ⟨trivial,trivial⟩

theorem CheckoutWorld.Recorded.move (hlock : w.Locked) (h : w.Recorded)
    (hm : CheckoutMove w w') : w'.Recorded := by
  cases hm with
  | noted => exact ⟨h.orders,h.outbox,h.paired,h.created,h.accounted,h.found⟩
  | reserved => exact ⟨h.orders,h.outbox,h.paired,h.created,h.accounted,h.found⟩
  | started n c seq hn hp =>
    refine h.keep (n := n) rfl rfl rfl rfl ?_ ?_ ?_
    · intro c₀ hc₀
      rw [hn] at hc₀
      cases hc₀
    · rw [CheckoutCall.Accounted,hp]
      trivial
    · rw [CheckoutCall.Found,hp]
      trivial
  | moved n c phase seq hc hnext =>
    have hnew := h.moved hlock hc hnext
    refine h.keep (n := n) rfl rfl rfl rfl ?_ hnew.1 hnew.2
    intro c₀ hc₀
    obtain rfl : c = c₀ := Option.some.inj (hc.symm.trans hc₀)
    exact hnext.open_phase
  | inserted n c hc hp =>
    refine h.keep (n := n) rfl rfl rfl rfl ?_ trivial trivial
    intro c₀ hc₀
    obtain rfl : c = c₀ := Option.some.inj (hc.symm.trans hc₀)
    rw [hp]
    exact nofun
  | updated n c row hc hp =>
    refine h.keep (n := n) rfl rfl rfl rfl ?_ trivial trivial
    intro c₀ hc₀
    obtain rfl : c = c₀ := Option.some.inj (hc.symm.trans hc₀)
    rw [hp]
    exact nofun
  | finished n c result hc hopen hends =>
    have hnew := h.ended hc hends
    refine h.keep (n := n) rfl rfl rfl rfl ?_ hnew.1 hnew.2
    intro c₀ hc₀
    obtain rfl : c = c₀ := Option.some.inj (hc.symm.trans hc₀)
    exact hopen
  | committed n c event hc hp => exact h.commit hc hp

/-! ## Every reachable state -/

structure CheckoutWorld.Sound (w : CheckoutWorld) : Prop where
  locked : w.Locked
  booked : w.Booked
  recorded : w.Recorded

theorem sound_of_fresh (h : w.Fresh) : w.Sound := by
  obtain ⟨hids,havailable,horders,houtbox,hkey,hpublic,hseat,hcall,hcommits⟩ := h
  have hholding : ∀ {κ : Type} (f : CheckoutCall → Option κ),
      holdings w.call f = fun _ => none := by
    intro κ f
    rw [hcall]
    exact holdings_none f
  refine ⟨⟨?_,?_,?_⟩,⟨hids,?_,?_,?_,?_⟩,⟨?_,?_,?_,?_,?_,?_⟩⟩
  · rw [horders,hkey,hholding]
    exact .empty
  · rw [horders,hpublic,hholding]
    exact .empty
  · rw [hseat,hholding]
    exact LockTable.held_none
  · intro n c hc
    rw [hcall] at hc
    cases hc
  · rw [horders]
    exact .nil
  · rw [horders]
    intro order horder
    cases horder
  · intro row hrow hsold
    rw [havailable row hrow] at hsold
    cases hsold
  · rw [horders,hcommits]
    rfl
  · rw [houtbox,hcommits]
    rfl
  · rw [hcommits]
    intro x hx
    cases hx
  · rw [hcommits]
    intro x hx
    cases hx
  · intro n c hc
    rw [hcall] at hc
    cases hc
  · intro n c hc
    rw [hcall] at hc
    cases hc

theorem sound_of_reachable (h : Reachable checkoutStep CheckoutWorld.Fresh w) : w.Sound := by
  apply ReachableBy.invariant (fun _ => sound_of_fresh) ?_ h
  intro s e t hs _ hstep
  have hm := checkoutStep_move hstep
  exact ⟨hs.locked.move hm,hs.booked.move hs.locked hm,hs.recorded.move hs.locked hm⟩

/-- What the committed tables and the results of all calls satisfy together. `left` says that
a call that did not return `created` has left no row. -/
structure CheckoutWorld.ExactlyOnce (w : CheckoutWorld) : Prop where
  keys : (w.orders.map OrderRow.idempotencyKey).Nodup
  seatIds : (w.orders.map OrderRow.seatId).Nodup
  sold : ∀ row ∈ w.seats, row.status = .SOLD ↔ w.orders.countP (·.seatId == row.id) = 1
  soldTo : ∀ row ∈ w.seats, row.status = .SOLD →
    ∀ order ∈ w.orders, order.seatId = row.id → row.soldTo = some order.customerId
  confirmed : ∀ order ∈ w.orders, w.outbox.countP (fun event =>
    event.eventType == "OrderConfirmed" && event.payload.orderPublicId == order.publicId) = 1
  ordered : ∀ event ∈ w.outbox, event.eventType = "OrderConfirmed" →
    w.orders.countP (·.publicId == event.payload.orderPublicId) = 1
  created : ∀ n m c d i j p q, w.call n = some c → w.call m = some d →
    c.phase = .returned (.created i p) → d.phase = .returned (.created j q) →
    c.input.idempotencyKey = d.input.idempotencyKey → n = m
  rows : w.orders = w.commits.map CheckoutCommit.order ∧
    w.outbox = w.commits.map CheckoutCommit.event
  left : ∀ n c result, w.call n = some c → c.phase = .returned result →
    (∀ i p, result ≠ .created i p) → ∀ x ∈ w.commits, x.call ≠ n
  duplicates : ∀ n c i p, w.call n = some c → c.phase = .returned (.duplicate i p) →
    ∃ order ∈ w.orders, order.idempotencyKey = c.input.idempotencyKey ∧ order.id = i ∧
      order.publicId = p

theorem countP_key_eq_one {ρ : Type*} [DecidableEq κ] {key : ρ → κ} {rows : List ρ} {r : ρ}
    (hn : (rows.map key).Nodup) (hr : r ∈ rows) : rows.countP (key · == key r) = 1 := by
  have hcount := List.count_eq_one_of_mem hn (List.mem_map_of_mem hr)
  rw [List.count,List.countP_map] at hcount
  exact hcount

theorem CheckoutWorld.Recorded.commit_of_created {n : Nat} {c : CheckoutCall} {i : Nat}
    {p : String} (h : w.Recorded) (hc : w.call n = some c)
    (hp : c.phase = .returned (.created i p)) :
    ∃ x ∈ w.commits, x.call = n ∧ x.order = c.order := by
  have haccounted := h.accounted n c hc
  rw [CheckoutCall.Accounted,hp] at haccounted
  obtain ⟨x,hx,hcall⟩ := haccounted
  obtain ⟨c',hc',horder,_⟩ := h.created x hx
  rw [hcall] at hc'
  obtain rfl : c = c' := Option.some.inj (hc.symm.trans hc')
  exact ⟨x,hx,hcall,horder⟩

private theorem CheckoutWorld.Sound.exactlyOnce (h : w.Sound) : w.ExactlyOnce := by
  have hbooked := h.booked
  have hrecorded := h.recorded
  have hkeys := h.locked.keys.nodup
  have hpublicIds := h.locked.publicIds.nodup
  -- seen through their public ids, orders and events are the same list
  have hsame : w.outbox.map (·.payload.orderPublicId) = w.orders.map OrderRow.publicId := by
    rw [hrecorded.orders,hrecorded.outbox,List.map_map,List.map_map]
    apply List.map_congr_left
    intro x hx
    exact (hrecorded.paired x hx).2
  have htype : ∀ event ∈ w.outbox, event.eventType = "OrderConfirmed" := by
    intro event hevent
    rw [hrecorded.outbox] at hevent
    obtain ⟨x,hx,rfl⟩ := List.mem_map.mp hevent
    exact (hrecorded.paired x hx).1
  constructor
  · exact hkeys
  · exact hbooked.orderSeats
  · intro row hrow
    constructor
    · intro hsold
      obtain ⟨order,horder,hseat⟩ := hbooked.sold row hrow hsold
      rw [← hseat]
      exact countP_key_eq_one hbooked.orderSeats horder
    · intro hcount
      have hpos : 0 < w.orders.countP (·.seatId == row.id) := by omega
      obtain ⟨order,horder,hseat⟩ := List.countP_pos_iff.mp hpos
      obtain ⟨row',hrow',hid,hsold,_⟩ := hbooked.bought order horder
      have hrows := eq_of_key_eq hbooked.seatIds hrow' hrow (hid.trans (by simpa using hseat))
      rw [← hrows]
      exact hsold
  · intro row hrow _ order horder hseat
    obtain ⟨row',hrow',hid,_,hto⟩ := hbooked.bought order horder
    rw [← eq_of_key_eq hbooked.seatIds hrow' hrow (hid.trans hseat)]
    exact hto
  · intro order horder
    have hmem : order.publicId ∈ w.outbox.map (·.payload.orderPublicId) := by
      rw [hsame]
      exact List.mem_map_of_mem horder
    obtain ⟨event,hevent,hid⟩ := List.mem_map.mp hmem
    have hcount := countP_key_eq_one (hsame ▸ hpublicIds) hevent
    rw [← hid,← hcount]
    apply List.countP_congr
    intro e he
    rw [htype e he,beq_self_eq_true,Bool.true_and]
  · intro event hevent _
    have hmem : event.payload.orderPublicId ∈ w.orders.map OrderRow.publicId := by
      rw [← hsame]
      exact List.mem_map.mpr ⟨event,hevent,rfl⟩
    obtain ⟨order,horder,hid⟩ := List.mem_map.mp hmem
    rw [← hid]
    exact countP_key_eq_one hpublicIds horder
  · intro n m c d i j p q hc hd hcp hdp hkey
    obtain ⟨x,hx,hxn,hxo⟩ := hrecorded.commit_of_created hc hcp
    obtain ⟨y,hy,hym,hyo⟩ := hrecorded.commit_of_created hd hdp
    rw [hrecorded.orders,List.map_map] at hkeys
    have hxy : x = y := by
      apply eq_of_key_eq hkeys hx hy
      rw [Function.comp_apply,Function.comp_apply,hxo,hyo]
      exact hkey
    rw [← hxn,← hym,hxy]
  · exact ⟨hrecorded.orders,hrecorded.outbox⟩
  · intro n c result hc hp hresult x hx heq
    obtain ⟨c',hc',_,hcreated⟩ := hrecorded.created x hx
    rw [heq] at hc'
    obtain rfl : c = c' := Option.some.inj (hc.symm.trans hc')
    rw [hp] at hcreated
    exact hresult _ _ (CheckoutPhase.returned.inj hcreated)
  · intro n c i p hc hp
    have hfound := hrecorded.found n c hc
    rw [CheckoutCall.Found,hp] at hfound
    exact hfound

/-- Any number of reservations and checkouts, in any interleaving of their statements. -/
theorem checkout_exactlyOnce (h : Reachable checkoutStep CheckoutWorld.Fresh w) :
    w.ExactlyOnce :=
  (sound_of_reachable h).exactlyOnce

/-! ## Two clicks on one seat -/

def oneSeat : CheckoutWorld := { seats := [{ id := 1 }] }

def aliceCheckout : IdempotentCheckoutInput where
  seatId := 1
  customerId := "alice"
  customerEmail := "alice@example.com"
  amountCents := 5000
  reservationToken := "t1"
  idempotencyKey := "k1"
  correlationId := "c1"

def bobCheckout : IdempotentCheckoutInput where
  seatId := 1
  customerId := "bob"
  customerEmail := "bob@example.com"
  amountCents := 5000
  reservationToken := "t2"
  idempotencyKey := "k2"
  correlationId := "c2"

/-- Alice sends one checkout three times and the first of them aborts. Bob has no
reservation. -/
def doubleClick : List CheckoutEvent :=
  [.reserve { seatId := 1, customerId := "alice" } "t1" 0,
    .reserve { seatId := 1, customerId := "bob" } "t2" 0,
    .start 0 aliceCheckout "o0",.start 1 aliceCheckout "o1",.start 2 bobCheckout "o2",
    .query 0 "",.query 2 "",.abort 0,.query 1 "",.start 3 aliceCheckout "o3",.query 2 "",
    .query 1 "",.query 2 "",.query 1 "e1",.query 1 "",.query 3 "",.query 3 "",.query 3 ""]

theorem oneSeat_fresh : oneSeat.Fresh :=
  ⟨List.nodup_singleton _,by simp [oneSeat],rfl,rfl,rfl,rfl,rfl,rfl,rfl⟩

theorem doubleClick_exactlyOnce :
    ∃ w, run checkoutStep oneSeat doubleClick = some w ∧ w.ExactlyOnce := by
  have hrun : (run checkoutStep oneSeat doubleClick).isSome = true := by decide +kernel
  obtain ⟨w,hw⟩ := Option.isSome_iff_exists.mp hrun
  exact ⟨w,hw,checkout_exactlyOnce (Reachable.run (.start oneSeat_fresh) hw)⟩

end SystemsLab.Capstone
