import Mathlib.Data.List.Nodup
import SystemsLab.DataGenerators.Commerce
import SystemsLab.Framework.FreshIndex

/-!
# Generated seats

`generateSeats` fills every event row by row, and within a row section by section. It returns out
of the innermost loop as soon as the event has its seats. The number of seats placed is at once
the position of the next one in the layout.
-/

namespace SystemsLab.DataGenerators

structure GeneratedEvent where
  publicId : String
  name : String
  venueName : String
  eventAt : ℤ
  deriving DecidableEq, Repr

structure GeneratedSeat where
  publicId : String
  eventIndex : ℕ
  sectionName : String
  row : String
  seatNumber : ℕ
  deriving DecidableEq, Repr

def SECTIONS : List String := ["A","B","C"]

def SEATS_PER_ROW : ℕ := 10

/-- A loop goes on, or the callback has returned out of it. -/
inductive Filling
  | next (seats : List GeneratedSeat) (placed : ℕ)
  | returned (seats : List GeneratedSeat)

section Loops

variable {σ : Type} (faker : Faker σ) (seatsPerEvent eventIndex rowNumber : ℕ)

/-- One turn of the innermost loop. -/
def placeSeat (sectionName : String) : Filling → ℕ → StateM σ Filling
  | .returned seats, _ => pure (.returned seats)
  | .next seats placed, seatNumber =>
    if placed ≥ seatsPerEvent then pure (.returned seats)
    else do
      let publicId ← faker.uuid
      let seat := ⟨publicId,eventIndex,sectionName,toString rowNumber,seatNumber⟩
      return .next (seats ++ [seat]) (placed + 1)

def placeSection (filling : Filling) (sectionName : String) : StateM σ Filling :=
  (List.range' 1 SEATS_PER_ROW).foldlM
    (placeSeat faker seatsPerEvent eventIndex rowNumber sectionName) filling

def placeRow (seats : List GeneratedSeat) (placed : ℕ) : StateM σ Filling :=
  SECTIONS.foldlM (placeSection faker seatsPerEvent eventIndex rowNumber) (.next seats placed)

/-- What holds of the seats and their number, while the loops go on or after the return. -/
inductive Filling.Holds (I : ℕ → List GeneratedSeat → Prop) (seatsPerEvent count : ℕ) :
    Filling → Prop
  | next {seats : List GeneratedSeat} : count ≤ seatsPerEvent → I count seats →
      Holds I seatsPerEvent count (.next seats count)
  | returned {seats : List GeneratedSeat} : I seatsPerEvent seats →
      Holds I seatsPerEvent count (.returned seats)

variable {faker seatsPerEvent eventIndex rowNumber} {I : ℕ → List GeneratedSeat → Prop}
  {sectionName : String} {filling : Filling} {count : ℕ}

private theorem placeSeat_holds (h : filling.Holds I seatsPerEvent count) (seatNumber : ℕ)
    (hpush : ∀ seats publicId, I count seats → I (count + 1)
      (seats ++ [⟨publicId,eventIndex,sectionName,toString rowNumber,seatNumber⟩])) :
    Always (Filling.Holds I seatsPerEvent (count + 1))
      (placeSeat faker seatsPerEvent eventIndex rowNumber sectionName filling seatNumber) := by
  cases h with
  | returned hseats => exact Always.pure (.returned hseats)
  | @next seats hle hseats =>
    show Always _ (if count ≥ seatsPerEvent then _ else _)
    split
    · obtain rfl : count = seatsPerEvent := by omega
      exact Always.pure (.returned hseats)
    · apply Always.draw
      intro publicId
      exact Always.pure (.next (by omega) (hpush seats publicId hseats))

private theorem placeSection_holds (h : filling.Holds I seatsPerEvent count)
    (hpush : ∀ k < SEATS_PER_ROW, ∀ seats publicId, I (count + k) seats → I (count + k + 1)
      (seats ++ [⟨publicId,eventIndex,sectionName,toString rowNumber,k + 1⟩])) :
    Always (Filling.Holds I seatsPerEvent (count + SEATS_PER_ROW))
      (placeSection faker seatsPerEvent eventIndex rowNumber filling sectionName) := by
  let turns := fun k => Filling.Holds I seatsPerEvent (count + k)
  have hloop : Always (turns (List.range' 1 SEATS_PER_ROW).length)
      (placeSection faker seatsPerEvent eventIndex rowNumber filling sectionName) := by
    unfold placeSection
    refine Always.foldlM (I := turns) ?_ ?_
    · exact h
    · intro k hk filling hfilling
      rw [List.length_range'] at hk
      rw [List.getElem_range',Nat.one_mul,Nat.add_comm 1 k]
      exact placeSeat_holds hfilling (k + 1) (hpush k hk)
  rwa [List.length_range'] at hloop

private theorem placeRow_holds {seats : List GeneratedSeat} {placed : ℕ}
    (hle : placed ≤ seatsPerEvent)
    (h : I placed seats)
    (hpush : ∀ j (hj : j < SECTIONS.length), ∀ k < SEATS_PER_ROW, ∀ seats publicId,
      I (placed + 10 * j + k) seats → I (placed + 10 * j + k + 1)
        (seats ++ [⟨publicId,eventIndex,SECTIONS[j],toString rowNumber,k + 1⟩])) :
    Always (Filling.Holds I seatsPerEvent (placed + 30))
      (placeRow faker seatsPerEvent eventIndex rowNumber seats placed) := by
  let turns := fun j => Filling.Holds I seatsPerEvent (placed + 10 * j)
  have hloop : Always (turns SECTIONS.length)
      (placeRow faker seatsPerEvent eventIndex rowNumber seats placed) := by
    unfold placeRow
    refine Always.foldlM (I := turns) ?_ ?_
    · exact .next hle h
    · intro j hj filling hfilling
      have hnext : placed + 10 * (j + 1) = placed + 10 * j + SEATS_PER_ROW := by
        unfold SEATS_PER_ROW
        omega
      show Always (Filling.Holds I seatsPerEvent (placed + 10 * (j + 1))) _
      rw [hnext]
      exact placeSection_holds hfilling (hpush j hj)
  have hrow : placed + 10 * SECTIONS.length = placed + 30 := by
    simp [SECTIONS]
  rwa [← hrow]

/-- What the `while` loop of an event carries along. -/
structure EventProgress where
  rowNumber : ℕ := 1
  placed : ℕ := 0
  seats : List GeneratedSeat

/-- One turn of the `while` loop. -/
def placeRows (faker : Faker σ) (seatsPerEvent eventIndex : ℕ) (progress : EventProgress) :
    StateM σ (EventProgress ⊕ List GeneratedSeat) :=
  if progress.placed < seatsPerEvent then do
    match ← placeRow faker seatsPerEvent eventIndex progress.rowNumber progress.seats
        progress.placed with
    | .returned seats => return .inr seats
    | .next seats placed => return .inl ⟨progress.rowNumber + 1,placed,seats⟩
  else return .inr progress.seats

def EventProgress.left (seatsPerEvent : ℕ) (progress : EventProgress) : ℕ :=
  seatsPerEvent - progress.placed

private theorem placeRows_lowers (faker : Faker σ) (seatsPerEvent eventIndex : ℕ) :
    Lowers (EventProgress.left seatsPerEvent) (placeRows faker seatsPerEvent eventIndex) := by
  intro progress
  unfold placeRows
  split
  · rename_i hlt
    have hrow : Always (Filling.Holds (fun _ _ => True) seatsPerEvent (progress.placed + 30))
        (placeRow faker seatsPerEvent eventIndex progress.rowNumber progress.seats
          progress.placed) :=
      placeRow_holds (I := fun _ _ => True) (Nat.le_of_lt hlt) trivial fun _ _ _ _ _ _ _ => trivial
    refine Always.bind hrow fun filling hfilling => ?_
    cases hfilling with
    | returned _ => exact Always.pure nofun
    | next _ _ =>
      apply Always.pure
      rintro _ ⟨⟩
      unfold EventProgress.left
      dsimp only
      omega
  · exact Always.pure nofun

end Loops

section Generator

variable {σ : Type} (faker : Faker σ) (seatsPerEvent eventIndex : ℕ)

def fillEvent (seats : List GeneratedSeat) : StateM σ (List GeneratedSeat) :=
  repeatM (EventProgress.left seatsPerEvent) (placeRows faker seatsPerEvent eventIndex)
    (placeRows_lowers faker seatsPerEvent eventIndex) { seats }

end Generator

def generateSeats {σ : Type} (faker : Faker σ) (events : List GeneratedEvent)
    (seatsPerEvent : ℕ) (seed : ℤ) : List GeneratedSeat :=
  let program : StateM σ (List GeneratedSeat) :=
    (List.range events.length).foldlM
      (fun seats eventIndex => fillEvent faker seatsPerEvent eventIndex seats) []
  (program.run (faker.seed (seed + 6))).1

def GeneratedSeat.position (seat : GeneratedSeat) : String × String × ℕ :=
  (seat.sectionName,seat.row,seat.seatNumber)

/-- The seats of a row, section by section. -/
def rowPositions (rowNumber : ℕ) : List (String × String × ℕ) :=
  SECTIONS.flatMap fun sectionName =>
    (List.range' 1 SEATS_PER_ROW).map fun seatNumber => (sectionName,toString rowNumber,seatNumber)

/-- The seats of the first rows. -/
def layout (rows : ℕ) : List (String × String × ℕ) :=
  (List.range rows).flatMap fun r => rowPositions (r + 1)

/-- The seat at a place of the layout, counted from zero. -/
def positionAt (i : ℕ) : String × String × ℕ :=
  (SECTIONS.getD (i / 10 % 3) "",toString (i / 30 + 1),i % 10 + 1)

private theorem positionAt_eq (r : ℕ) {j k : ℕ} (hj : j < 3) (hk : k < 10) :
    positionAt (30 * r + 10 * j + k) = (SECTIONS.getD j "",toString (r + 1),k + 1) := by
  have hsection : (30 * r + 10 * j + k) / 10 % 3 = j := by omega
  have hrow : (30 * r + 10 * j + k) / 30 = r := by omega
  have hseat : (30 * r + 10 * j + k) % 10 = k := by omega
  simp only [positionAt,hsection,hrow,hseat]

private theorem rowPositions_eq (r : ℕ) :
    rowPositions (r + 1) = (List.range' (30 * r) 30).map positionAt := by
  have hrow : rowPositions (r + 1) = (List.range 30).map fun i =>
      (SECTIONS.getD (i / 10) "",toString (r + 1),i % 10 + 1) := rfl
  rw [hrow,List.range'_eq_map_range,List.map_map]
  apply List.map_congr_left
  intro i hi
  have hlt : i < 30 := List.mem_range.mp hi
  have hsplit : 30 * r + i = 30 * r + 10 * (i / 10) + i % 10 := by omega
  rw [Function.comp_apply,hsplit,positionAt_eq r (by omega) (by omega)]

private theorem layout_eq (rows : ℕ) : layout rows = (List.range (30 * rows)).map positionAt := by
  induction rows with
  | zero => rfl
  | succ rows ih =>
    have hrange : List.range (30 * (rows + 1)) =
        List.range (30 * rows) ++ List.range' (30 * rows) 30 := by
      rw [Nat.mul_succ,List.range_add,List.range'_eq_map_range]
    unfold layout at ih ⊢
    rw [List.range_succ,List.flatMap_append,ih,hrange,List.map_append,List.flatMap_singleton,
      rowPositions_eq]

private theorem take_layout (n : ℕ) : (layout n).take n = (List.range n).map positionAt := by
  rw [layout_eq,← List.map_take,List.take_range,Nat.min_eq_left (by omega)]

theorem toString_injective : Function.Injective (toString : ℕ → String) := by
  intro m n h
  have hdigits : (Nat.repr m).toList = (Nat.repr n).toList := congrArg String.toList h
  rw [Nat.toList_repr,Nat.toList_repr] at hdigits
  exact toDigits_injective hdigits

theorem positionAt_injective : Function.Injective positionAt := by
  intro i j h
  obtain ⟨hsection,hrest⟩ := Prod.mk.inj h
  obtain ⟨hrow,hseat⟩ := Prod.mk.inj hrest
  have hsections : ∀ a < 3, ∀ b < 3, SECTIONS.getD a "" = SECTIONS.getD b "" → a = b := by
    decide
  have hlt := hsections _ (Nat.mod_lt (i / 10) (by decide)) _ (Nat.mod_lt (j / 10) (by decide))
    hsection
  have hrows := toString_injective hrow
  omega

variable {σ : Type} {faker : Faker σ} {seatsPerEvent eventIndex : ℕ}

/-- The first `placed` seats of the event are in place, after those of the events before it. -/
def Seated (before : List (ℕ × String × String × ℕ)) (eventIndex placed : ℕ)
    (seats : List GeneratedSeat) : Prop :=
  seats.map (fun seat => (seat.eventIndex,seat.position)) =
    before ++ (List.range placed).map fun i => (eventIndex,positionAt i)

private theorem Seated.push {before : List (ℕ × String × String × ℕ)} {placed : ℕ}
    {seats : List GeneratedSeat} (h : Seated before eventIndex placed seats)
    {seat : GeneratedSeat} (hevent : seat.eventIndex = eventIndex)
    (hposition : seat.position = positionAt placed) :
    Seated before eventIndex (placed + 1) (seats ++ [seat]) := by
  unfold Seated at h ⊢
  rw [List.map_append,h,List.range_succ,List.map_append,List.append_assoc,List.map_singleton,
    List.map_singleton,hevent,hposition]

private theorem placeRow_seated {before : List (ℕ × String × String × ℕ)} {r : ℕ}
    {seats : List GeneratedSeat} (hle : 30 * r ≤ seatsPerEvent)
    (h : Seated before eventIndex (30 * r) seats) :
    Always (Filling.Holds (Seated before eventIndex) seatsPerEvent (30 * r + 30))
      (placeRow faker seatsPerEvent eventIndex (r + 1) seats (30 * r)) := by
  apply placeRow_holds hle h
  intro j hj k hk seats publicId hseats
  apply hseats.push
  · rfl
  · rw [positionAt_eq r hj hk,List.getD_eq_getElem?_getD,List.getElem?_eq_getElem hj]
    rfl

private theorem fillEvent_seated {before : List (ℕ × String × String × ℕ)}
    {seats : List GeneratedSeat}
    (h : seats.map (fun seat => (seat.eventIndex,seat.position)) = before) :
    Always (Seated before eventIndex seatsPerEvent)
      (fillEvent faker seatsPerEvent eventIndex seats) := by
  let inv := fun progress : EventProgress => ∃ r, progress.rowNumber = r + 1 ∧
    progress.placed = 30 * r ∧ 30 * r ≤ seatsPerEvent ∧
    Seated before eventIndex (30 * r) progress.seats
  apply Always.repeatM (I := inv)
  · rintro ⟨rowNumber,placed,seats⟩ ⟨r,hrow,hplaced,hle,hseats⟩
    subst hrow hplaced
    unfold placeRows
    split
    · refine Always.bind (placeRow_seated hle hseats) fun filling hfilling => ?_
      cases hfilling with
      | returned hfull => exact Always.pure hfull
      | next hle' hseats' => exact Always.pure ⟨r + 1,rfl,rfl,hle',hseats'⟩
    · rename_i hge
      obtain heq : 30 * r = seatsPerEvent := by
        dsimp only at hge
        omega
      rw [heq] at hseats
      exact Always.pure hseats
  · exact ⟨0,rfl,rfl,Nat.zero_le _,by simp [Seated,h]⟩

/-- The first seats of the layout, for one event after the other. -/
def eventPositions (seatsPerEvent events : ℕ) : List (ℕ × String × String × ℕ) :=
  (List.range events).flatMap fun e => (List.range seatsPerEvent).map fun i => (e,positionAt i)

private theorem eventPositions_succ (n m : ℕ) : eventPositions n (m + 1) =
    eventPositions n m ++ (List.range n).map fun i => (m,positionAt i) := by
  unfold eventPositions
  rw [List.range_succ,List.flatMap_append,List.flatMap_singleton]

private theorem eventPositions_length (n m : ℕ) : (eventPositions n m).length = m * n := by
  induction m with
  | zero => simp [eventPositions]
  | succ m ih =>
    rw [eventPositions_succ,List.length_append,ih,List.length_map,List.length_range,Nat.succ_mul]

private theorem eventPositions_lt {n m : ℕ} {x : ℕ × String × String × ℕ}
    (hx : x ∈ eventPositions n m) : x.1 < m := by
  obtain ⟨e,he,hx⟩ := List.mem_flatMap.mp hx
  obtain ⟨i,_,rfl⟩ := List.mem_map.mp hx
  exact List.mem_range.mp he

private theorem eventPositions_nodup (n m : ℕ) : (eventPositions n m).Nodup := by
  induction m with
  | zero => simp [eventPositions]
  | succ m ih =>
    rw [eventPositions_succ,List.nodup_append]
    refine ⟨ih,?_,?_⟩
    · apply List.nodup_range.map
      intro i j h
      exact positionAt_injective (Prod.mk.inj h).2
    · rintro x hx _ hy rfl
      obtain ⟨i,_,rfl⟩ := List.mem_map.mp hy
      exact absurd (eventPositions_lt hx) (Nat.lt_irrefl m)

private theorem eventPositions_filter {n m e : ℕ} (he : e < m) :
    (eventPositions n m).filter (fun x => x.1 = e) =
      (List.range n).map fun i => (e,positionAt i) := by
  induction m with
  | zero => omega
  | succ m ih =>
    rw [eventPositions_succ,List.filter_append]
    rcases Nat.lt_succ_iff_lt_or_eq.mp he with hlt | rfl
    · have hnone : ((List.range n).map fun i => (m,positionAt i)).filter (fun x => x.1 = e) =
          [] := by
        simp [List.filter_map,Function.comp_def,(Nat.ne_of_lt hlt).symm]
      rw [ih hlt,hnone,List.append_nil]
    · have hnone : (eventPositions n e).filter (fun x => x.1 = e) = [] := by
        apply List.filter_eq_nil_iff.mpr
        intro x hx
        simpa using Nat.ne_of_lt (eventPositions_lt hx)
      have hall : ((List.range n).map fun i => (e,positionAt i)).filter (fun x => x.1 = e) =
          (List.range n).map fun i => (e,positionAt i) := by
        simp [List.filter_map,Function.comp_def]
      rw [hnone,hall,List.nil_append]

private theorem generateSeats_positions (faker : Faker σ) (events : List GeneratedEvent)
    (seatsPerEvent : ℕ) (seed : ℤ) :
    (generateSeats faker events seatsPerEvent seed).map
        (fun seat => (seat.eventIndex,seat.position)) =
      eventPositions seatsPerEvent events.length := by
  let inv := fun (m : ℕ) (seats : List GeneratedSeat) =>
    seats.map (fun seat => (seat.eventIndex,seat.position)) = eventPositions seatsPerEvent m
  have hloop : Always (inv (List.range events.length).length)
      ((List.range events.length).foldlM
        (fun seats eventIndex => fillEvent faker seatsPerEvent eventIndex seats) []) := by
    apply Always.foldlM (I := inv)
    · rfl
    · intro e he seats hseats
      rw [List.getElem_range]
      refine (fillEvent_seated hseats).mono fun seats' hseats' => ?_
      show _ = eventPositions seatsPerEvent (e + 1)
      rw [eventPositions_succ]
      exact hseats'
  rw [List.length_range] at hloop
  exact hloop.value _

/-- Every event has its number of seats, no seat occurs twice, and the seats of an event are the
first ones of the layout. -/
theorem generateSeats_spec (faker : Faker σ) (events : List GeneratedEvent)
    (seatsPerEvent : ℕ) (seed : ℤ) :
    let seats := generateSeats faker events seatsPerEvent seed
    seats.length = events.length * seatsPerEvent ∧
      (∀ e < events.length, seats.countP (fun seat => seat.eventIndex = e) = seatsPerEvent) ∧
      (seats.map fun seat => (seat.eventIndex,seat.position)).Nodup ∧
      ∀ e < events.length, (seats.filter fun seat => seat.eventIndex = e).map
        GeneratedSeat.position = (layout seatsPerEvent).take seatsPerEvent := by
  intro seats
  have hpositions : seats.map (fun seat => (seat.eventIndex,seat.position)) =
      eventPositions seatsPerEvent events.length :=
    generateSeats_positions faker events seatsPerEvent seed
  have hlength := congrArg List.length hpositions
  rw [List.length_map,eventPositions_length] at hlength
  have hevent : ∀ e < events.length, (seats.filter fun seat => seat.eventIndex = e).map
      GeneratedSeat.position = (layout seatsPerEvent).take seatsPerEvent := by
    intro e he
    have hfilter := eventPositions_filter (n := seatsPerEvent) he
    rw [← hpositions,List.filter_map] at hfilter
    have hsnd := congrArg (List.map Prod.snd) hfilter
    rw [List.map_map,List.map_map] at hsnd
    rw [take_layout]
    exact hsnd
  refine ⟨hlength,fun e he => ?_,?_,hevent⟩
  · have hcount := congrArg List.length (hevent e he)
    rw [List.length_map,take_layout,List.length_map,List.length_range] at hcount
    rw [List.countP_eq_length_filter]
    exact hcount
  · rw [hpositions]
    exact eventPositions_nodup seatsPerEvent events.length

example : (layout 2).take 12 = [("A","1",1),("A","1",2),("A","1",3),("A","1",4),("A","1",5),
    ("A","1",6),("A","1",7),("A","1",8),("A","1",9),("A","1",10),("B","1",1),("B","1",2)] := by
  decide

end SystemsLab.DataGenerators
