import SystemsLab.Framework.Transition
import Mathlib.Data.List.Nodup

/-!
# The slow downstream dependency

`BoundedResource` has `capacity` slots. A call takes a free slot or waits in line for one, works for
a while and hands its slot to the first in line, or gives it back. A timer takes a call that has
waited for too long out of the line.
-/

namespace SystemsLab.Backpressure

/-- The delay of `setTimeout`: one millisecond if it is out of range. -/
def timerDelay (ms : Int) : Int := if 1 ≤ ms ∧ ms ≤ 2147483647 then ms else 1

/-- An entry of `waitQueue`, with the time its timer is set to. -/
structure Waiter where
  caller : Nat
  timer : Int
  deriving DecidableEq, Repr

structure BoundedResource where
  capacity : Nat
  availableSlots : Nat
  waitQueue : List Waiter := []
  deriving DecidableEq, Repr

namespace BoundedResource

def new (capacity : Nat) : BoundedResource where
  capacity := capacity
  availableSlots := capacity

def inFlightCount (r : BoundedResource) : Int := r.capacity - r.availableSlots

def waitingCount (r : BoundedResource) : Nat := r.waitQueue.length

/-- Whether the caller has a slot at once. -/
def acquire (r : BoundedResource) (entry : Waiter) : BoundedResource × Bool :=
  if 0 < r.availableSlots then ({ r with availableSlots := r.availableSlots - 1 },true)
  else ({ r with waitQueue := r.waitQueue ++ [entry] },false)

/-- The slot goes to the first in line, if there is one. -/
def release (r : BoundedResource) : BoundedResource × Option Waiter :=
  match r.waitQueue with
  | next::rest => ({ r with waitQueue := rest },some next)
  | [] => ({ r with availableSlots := r.availableSlots + 1 },none)

/-- The timer of a waiting caller fires. -/
def timeOut (r : BoundedResource) (caller : Nat) : BoundedResource :=
  { r with waitQueue := r.waitQueue.eraseP (·.caller == caller) }

end BoundedResource

def timedOutMessage (timeoutMs : Int) (capacity : Nat) : String :=
  s!"downstream acquire timed out after {timeoutMs}ms - the resource pool " ++
    s!"(capacity {capacity}) has been exhausted for the entire wait"

inductive DownstreamPhase
  | waiting
  | working (since : Int)
  | returned
  | threw (error : String)
  deriving DecidableEq, Repr

/-- `found` is how many callers were in line already; it is not part of the program's state. -/
structure DownstreamCall where
  workMs : Int
  acquireTimeoutMs : Int
  startedAt : Int
  found : Nat
  phase : DownstreamPhase
  deriving DecidableEq, Repr

/-- The logs `arrivals`, `granted` (with the time of the grant), `rejected` and the list of those
`inFlight` are not part of the program's state. -/
structure DownstreamWorld where
  resource : BoundedResource
  clock : Int := 0
  call : Nat → Option DownstreamCall := fun _ => none
  arrivals : List Nat := []
  granted : List (Nat × Int) := []
  rejected : List Nat := []
  inFlight : List Nat := []

inductive DownstreamEvent
  | callSlowDownstream (caller : Nat) (workMs acquireTimeoutMs : Int)
  | finish (caller : Nat)
  | timeOut (caller : Nat)
  | advance (ms : Nat)
  deriving DecidableEq, Repr

namespace DownstreamWorld

def put (w : DownstreamWorld) (n : Nat) (c : DownstreamCall) : DownstreamWorld :=
  { w with call := Function.update w.call n (some c) }

/-- The caller has a slot, and begins to work. -/
def grant (w : DownstreamWorld) (n : Nat) (c : DownstreamCall) : DownstreamWorld :=
  { w.put n { c with phase := .working w.clock } with
    granted := w.granted ++ [(n,w.clock)]
    inFlight := w.inFlight ++ [n] }

def entering (w : DownstreamWorld) (workMs acquireTimeoutMs : Int) : DownstreamCall where
  workMs := workMs
  acquireTimeoutMs := acquireTimeoutMs
  startedAt := w.clock
  found := w.resource.waitingCount
  phase := .waiting

def start (w : DownstreamWorld) (n : Nat) (workMs acquireTimeoutMs : Int) : DownstreamWorld :=
  let c := w.entering workMs acquireTimeoutMs
  let (resource,free) := w.resource.acquire ⟨n,w.clock + timerDelay acquireTimeoutMs⟩
  let w := { w with
    resource
    arrivals := w.arrivals ++ [n] }
  if free then w.grant n c else w.put n c

/-- The work is done; `finally` releases the slot. -/
def finish (w : DownstreamWorld) (n : Nat) (c : DownstreamCall) : DownstreamWorld :=
  let (resource,next) := w.resource.release
  let w := { w.put n { c with phase := .returned } with
    resource
    inFlight := w.inFlight.erase n }
  match next with
  | none => w
  | some entry =>
    match w.call entry.caller with
    | none => w
    | some d => w.grant entry.caller d

end DownstreamWorld

def downstreamStep (w : DownstreamWorld) : DownstreamEvent → Option DownstreamWorld
  | .callSlowDownstream n workMs acquireTimeoutMs =>
    match w.call n with
    | some _ => none
    | none => some (w.start n workMs acquireTimeoutMs)
  | .finish n =>
    match w.call n with
    | some c =>
      match c.phase with
      | .working since =>
        if since + timerDelay c.workMs ≤ w.clock then some (w.finish n c) else none
      | _ => none
    | none => none
  | .timeOut n =>
    match w.call n with
    | some c =>
      match c.phase with
      | .waiting =>
        if c.startedAt + timerDelay c.acquireTimeoutMs ≤ w.clock then
          let error := timedOutMessage c.acquireTimeoutMs w.resource.capacity
          some { w.put n { c with phase := .threw error } with
            resource := w.resource.timeOut n
            rejected := w.rejected ++ [n] }
        else none
      | _ => none
    | none => none
  | .advance ms => some { w with clock := w.clock + ms }

/-- A new resource that nobody has called. -/
def DownstreamWorld.fresh (capacity : Nat) (clock : Int) : DownstreamWorld where
  resource := .new capacity
  clock := clock

inductive DownstreamMove (w : DownstreamWorld) : DownstreamEvent → DownstreamWorld → Prop
  | advanced (ms : Nat) : DownstreamMove w (.advance ms) { w with clock := w.clock + ms }
  | admitted (n : Nat) (c : DownstreamCall) : w.call n = none → 0 < w.resource.availableSlots →
      c.startedAt = w.clock → c.found = w.resource.waitQueue.length →
      DownstreamMove w (.callSlowDownstream n c.workMs c.acquireTimeoutMs) ({ w with
        resource := { w.resource with availableSlots := w.resource.availableSlots - 1 }
        arrivals := w.arrivals ++ [n] }.grant n c)
  | queued (n : Nat) (c : DownstreamCall) : w.call n = none → w.resource.availableSlots = 0 →
      c.startedAt = w.clock → c.found = w.resource.waitQueue.length → c.phase = .waiting →
      DownstreamMove w (.callSlowDownstream n c.workMs c.acquireTimeoutMs) { w.put n c with
        resource := { w.resource with waitQueue := w.resource.waitQueue ++
          [⟨n,w.clock + timerDelay c.acquireTimeoutMs⟩] }
        arrivals := w.arrivals ++ [n] }
  | released (n : Nat) (c : DownstreamCall) (since : Int) : w.call n = some c →
      c.phase = .working since → since + timerDelay c.workMs ≤ w.clock →
      w.resource.waitQueue = [] →
      DownstreamMove w (.finish n) { w.put n { c with phase := .returned } with
        resource := { w.resource with availableSlots := w.resource.availableSlots + 1 }
        inFlight := w.inFlight.erase n }
  | handedOver (n : Nat) (c : DownstreamCall) (since : Int) (entry : Waiter) (rest : List Waiter) :
      w.call n = some c → c.phase = .working since → since + timerDelay c.workMs ≤ w.clock →
      w.resource.waitQueue = entry::rest →
      DownstreamMove w (.finish n) (w.finish n c)
  | timedOut (n : Nat) (c : DownstreamCall) : w.call n = some c → c.phase = .waiting →
      c.startedAt + timerDelay c.acquireTimeoutMs ≤ w.clock →
      DownstreamMove w (.timeOut n) { w.put n { c with
          phase := .threw (timedOutMessage c.acquireTimeoutMs w.resource.capacity) } with
        resource := w.resource.timeOut n
        rejected := w.rejected ++ [n] }

theorem downstreamStep_move {w w' : DownstreamWorld} {e : DownstreamEvent}
    (h : downstreamStep w e = some w') : DownstreamMove w e w' := by
  cases e with
  | callSlowDownstream n workMs acquireTimeoutMs =>
    simp only [downstreamStep] at h
    split at h
    · cases h
    · rename_i hnone
      cases h
      unfold DownstreamWorld.start BoundedResource.acquire
      by_cases hfree : 0 < w.resource.availableSlots
      · simp only [if_pos hfree]
        exact .admitted n (w.entering workMs acquireTimeoutMs) hnone hfree rfl rfl
      · simp only [if_neg hfree]
        exact .queued n (w.entering workMs acquireTimeoutMs) hnone (Nat.eq_zero_of_not_pos hfree)
          rfl rfl rfl
  | finish n =>
    simp only [downstreamStep] at h
    split at h
    · rename_i c hc
      split at h
      · rename_i since hphase
        split at h
        · rename_i hdone
          cases h
          cases hqueue : w.resource.waitQueue with
          | nil =>
            have hmove := DownstreamMove.released n c since hc hphase hdone hqueue
            simpa only [DownstreamWorld.finish,BoundedResource.release,hqueue] using hmove
          | cons entry rest => exact .handedOver n c since entry rest hc hphase hdone hqueue
        · cases h
      · cases h
    · cases h
  | timeOut n =>
    simp only [downstreamStep] at h
    split at h
    · rename_i c hc
      split at h
      · rename_i hphase
        split at h
        · rename_i hdue
          cases h
          exact .timedOut n c hc hphase hdue
        · cases h
      · cases h
    · cases h
  | advance ms =>
    cases h
    exact .advanced ms

/-- At most `capacity` callers work at a time, slots are neither lost nor made, and nobody waits
while one is free. Slots go to the callers in the order of their arrival, each caller has one at
most once, and only those that waited in vain are told so. -/
structure DownstreamWorld.Fair (w : DownstreamWorld) (capacity : Nat) : Prop where
  inFlight : ∀ n, n ∈ w.inFlight ↔ ∃ c since, w.call n = some c ∧ c.phase = .working since
  nodup : w.inFlight.Nodup
  slots : w.resource.inFlightCount = w.inFlight.length ∧ w.inFlight.length ≤ capacity
  busy : w.resource.waitQueue ≠ [] → w.inFlight.length = capacity
  waiting : ∀ n, n ∈ w.resource.waitQueue.map Waiter.caller ↔
    ∃ c, w.call n = some c ∧ c.phase = .waiting
  order : (w.granted.map Prod.fst ++ w.resource.waitQueue.map Waiter.caller).Sublist w.arrivals
  once : w.arrivals.Nodup
  accounted : w.arrivals.Perm
    (w.granted.map Prod.fst ++ w.resource.waitQueue.map Waiter.caller ++ w.rejected)
  rejected : ∀ n c error, w.call n = some c → c.phase = .threw error →
    n ∈ w.rejected ∧ error = timedOutMessage c.acquireTimeoutMs capacity

/-- What a caller is in the middle of, and what is known of it. -/
structure DownstreamCall.Fits (w : DownstreamWorld) (capacity n : Nat) (c : DownstreamCall) :
    Prop where
  inFlight : n ∈ w.inFlight ↔ ∃ since, c.phase = .working since
  waiting : n ∈ w.resource.waitQueue.map Waiter.caller ↔ c.phase = .waiting
  granted : ∀ since, c.phase = .working since → (n,since) ∈ w.granted
  rejected : ∀ error, c.phase = .threw error →
    n ∈ w.rejected ∧ error = timedOutMessage c.acquireTimeoutMs capacity

structure DownstreamWorld.Sound (w : DownstreamWorld) (capacity : Nat) : Prop where
  fixed : w.resource.capacity = capacity
  slots : w.resource.availableSlots + w.inFlight.length = capacity
  nodup : w.inFlight.Nodup
  busy : w.resource.waitQueue ≠ [] → w.resource.availableSlots = 0
  order : (w.granted.map Prod.fst ++ w.resource.waitQueue.map Waiter.caller).Sublist w.arrivals
  once : w.arrivals.Nodup
  accounted : w.arrivals.Perm
    (w.granted.map Prod.fst ++ w.resource.waitQueue.map Waiter.caller ++ w.rejected)
  calls : ∀ n c, w.call n = some c → c.Fits w capacity n
  arrived : ∀ n, w.call n = none → n ∉ w.arrivals ∧ n ∉ w.inFlight

variable {w w' : DownstreamWorld} {capacity n : Nat} {c : DownstreamCall}

namespace DownstreamWorld.Sound

theorem start (capacity : Nat) (clock : Int) : (fresh capacity clock).Sound capacity where
  fixed := rfl
  slots := rfl
  nodup := .nil
  busy h := absurd rfl h
  order := .slnil
  once := .nil
  accounted := .nil
  calls := nofun
  arrived _ _ := ⟨nofun,nofun⟩

theorem queue_nodup (h : w.Sound capacity) :
    (w.granted.map Prod.fst ++ w.resource.waitQueue.map Waiter.caller).Nodup :=
  h.once.sublist h.order

private theorem of_mem_queue (h : w.Sound capacity)
    (hn : n ∈ w.resource.waitQueue.map Waiter.caller) :
    ∃ c, w.call n = some c ∧ c.phase = .waiting := by
  cases hc : w.call n with
  | none =>
    refine absurd ?_ (h.arrived n hc).1
    exact h.order.subset (List.mem_append_right _ hn)
  | some c => exact ⟨c,rfl,(h.calls n c hc).waiting.mp hn⟩

theorem fair (h : w.Sound capacity) : w.Fair capacity := by
  have hslots := h.slots
  refine ⟨fun n => ⟨fun hn => ?_,?_⟩,h.nodup,⟨?_,by omega⟩,fun hne => ?_,
    fun n => ⟨h.of_mem_queue,?_⟩,h.order,h.once,h.accounted,
    fun n c error hc hphase => (h.calls n c hc).rejected error hphase⟩
  · cases hc : w.call n with
    | none => exact absurd hn (h.arrived n hc).2
    | some c =>
      obtain ⟨since,hphase⟩ := (h.calls n c hc).inFlight.mp hn
      exact ⟨c,since,rfl,hphase⟩
  · rintro ⟨c,since,hc,hphase⟩
    exact (h.calls n c hc).inFlight.mpr ⟨since,hphase⟩
  · rw [BoundedResource.inFlightCount,h.fixed]
    omega
  · have hfree := h.busy hne
    omega
  · rintro ⟨c,hc,hphase⟩
    exact (h.calls n c hc).waiting.mpr hphase

private theorem other (h : w.Sound capacity) {m : Nat} {d : DownstreamCall} (hd : w.call m = some d)
    (hinFlight : m ∈ w'.inFlight ↔ m ∈ w.inFlight)
    (hqueue : m ∈ w'.resource.waitQueue.map Waiter.caller ↔
      m ∈ w.resource.waitQueue.map Waiter.caller)
    (hgranted : w.granted ⊆ w'.granted) (hrejected : w.rejected ⊆ w'.rejected) :
    d.Fits w' capacity m := by
  have hfits := h.calls m d hd
  refine ⟨hinFlight.trans hfits.inFlight,hqueue.trans hfits.waiting,
    fun since hphase => hgranted (hfits.granted since hphase),fun error hphase => ?_⟩
  obtain ⟨hmem,herror⟩ := hfits.rejected error hphase
  exact ⟨hrejected hmem,herror⟩

theorem queue_nil (h : w.Sound capacity) (hfree : 0 < w.resource.availableSlots) :
    w.resource.waitQueue = [] := by
  by_contra hne
  rw [h.busy hne] at hfree
  exact Nat.lt_irrefl 0 hfree

private theorem advanced (h : w.Sound capacity) (ms : Nat) :
    ({ w with clock := w.clock + ms } : DownstreamWorld).Sound capacity where
  fixed := h.fixed
  slots := h.slots
  nodup := h.nodup
  busy := h.busy
  order := h.order
  once := h.once
  accounted := h.accounted
  calls _ _ hc := h.other hc Iff.rfl Iff.rfl (List.Subset.refl _) (List.Subset.refl _)
  arrived := h.arrived

private theorem admitted (h : w.Sound capacity) (hnone : w.call n = none)
    (hfree : 0 < w.resource.availableSlots) : ({ w with
      resource := { w.resource with availableSlots := w.resource.availableSlots - 1 }
      arrivals := w.arrivals ++ [n] }.grant n c).Sound capacity := by
  have hqueue := h.queue_nil hfree
  have hslots := h.slots
  obtain ⟨hnew,hidle⟩ := h.arrived n hnone
  have horder := h.order
  have haccounted := h.accounted
  rw [hqueue,List.map_nil,List.append_nil] at horder haccounted
  have hgranted : (w.granted ++ [(n,w.clock)]).map Prod.fst = w.granted.map Prod.fst ++ [n] := by
    rw [List.map_append]
    rfl
  refine ⟨h.fixed,?_,?_,fun hne => absurd hqueue hne,?_,?_,?_,?_,?_⟩
  · change w.resource.availableSlots - 1 + (w.inFlight ++ [n]).length = capacity
    rw [List.length_append,List.length_singleton]
    omega
  · exact List.nodup_append'.mpr ⟨h.nodup,List.nodup_singleton n,by simpa using hidle⟩
  · change ((w.granted ++ [(n,w.clock)]).map Prod.fst ++
      w.resource.waitQueue.map Waiter.caller).Sublist (w.arrivals ++ [n])
    rw [hqueue,hgranted,List.map_nil,List.append_nil]
    exact horder.append_right [n]
  · exact List.nodup_append'.mpr ⟨h.once,List.nodup_singleton n,by simpa using hnew⟩
  · change (w.arrivals ++ [n]).Perm ((w.granted ++ [(n,w.clock)]).map Prod.fst ++
      w.resource.waitQueue.map Waiter.caller ++ w.rejected)
    rw [hqueue,hgranted,List.map_nil,List.append_nil,List.append_assoc]
    refine (haccounted.append_right [n]).trans ?_
    rw [List.append_assoc]
    exact List.perm_append_comm.append_left _
  · intro m d hd
    rcases update_eq_some hd with ⟨rfl,rfl⟩ | ⟨hmn,hd⟩
    · refine ⟨?_,?_,?_,nofun⟩
      · exact iff_of_true (List.mem_append_right _ (List.mem_singleton_self m)) ⟨_,rfl⟩
      · refine iff_of_false ?_ nofun
        change m ∉ w.resource.waitQueue.map Waiter.caller
        rw [hqueue]
        nofun
      · intro since hphase
        cases hphase
        exact List.mem_append_right _ (List.mem_singleton_self _)
    · refine h.other hd ?_ Iff.rfl (List.subset_append_left _ _) (List.Subset.refl _)
      change m ∈ w.inFlight ++ [n] ↔ _
      rw [List.mem_append,List.mem_singleton]
      exact or_iff_left hmn
  · intro m hm
    obtain ⟨hmn,hm⟩ := update_eq_none hm
    obtain ⟨harrived,hflight⟩ := h.arrived m hm
    have hlast : m ∉ [n] := fun hmem => hmn (List.mem_singleton.mp hmem)
    exact ⟨List.not_mem_append harrived hlast,List.not_mem_append hflight hlast⟩

private theorem queued (h : w.Sound capacity) (hnone : w.call n = none)
    (hbusy : w.resource.availableSlots = 0) (hphase : c.phase = .waiting) (timer : Int) :
    ({ w.put n c with
      resource := { w.resource with waitQueue := w.resource.waitQueue ++ [⟨n,timer⟩] }
      arrivals := w.arrivals ++ [n] } : DownstreamWorld).Sound capacity := by
  obtain ⟨hnew,hidle⟩ := h.arrived n hnone
  have hqueue : (w.resource.waitQueue ++ [(⟨n,timer⟩ : Waiter)]).map Waiter.caller =
      w.resource.waitQueue.map Waiter.caller ++ [n] := by
    rw [List.map_append]
    rfl
  have hnotQueued : n ∉ w.resource.waitQueue.map Waiter.caller := by
    intro hmem
    exact hnew (h.order.subset (List.mem_append_right _ hmem))
  refine ⟨h.fixed,h.slots,h.nodup,fun _ => hbusy,?_,?_,?_,?_,?_⟩
  · change (w.granted.map Prod.fst ++ (w.resource.waitQueue ++ [_]).map Waiter.caller).Sublist
      (w.arrivals ++ [n])
    rw [hqueue,← List.append_assoc]
    exact h.order.append_right [n]
  · exact List.nodup_append'.mpr ⟨h.once,List.nodup_singleton n,by simpa using hnew⟩
  · change (w.arrivals ++ [n]).Perm (w.granted.map Prod.fst ++
      (w.resource.waitQueue ++ [_]).map Waiter.caller ++ w.rejected)
    rw [hqueue,← List.append_assoc,List.append_assoc _ [n]]
    refine (h.accounted.append_right [n]).trans ?_
    rw [List.append_assoc]
    exact List.perm_append_comm.append_left _
  · intro m d hd
    rcases update_eq_some hd with ⟨rfl,rfl⟩ | ⟨hmn,hd⟩
    · refine ⟨iff_of_false hidle ?_,?_,?_,?_⟩
      · rintro ⟨since,hworking⟩
        rw [hphase] at hworking
        cases hworking
      · refine iff_of_true ?_ hphase
        change m ∈ (w.resource.waitQueue ++ [_]).map Waiter.caller
        rw [hqueue]
        exact List.mem_append_right _ (List.mem_singleton_self m)
      · intro since hworking
        rw [hphase] at hworking
        cases hworking
      · intro error hthrew
        rw [hphase] at hthrew
        cases hthrew
    · refine h.other hd Iff.rfl ?_ (List.Subset.refl _) (List.Subset.refl _)
      change m ∈ (w.resource.waitQueue ++ [_]).map Waiter.caller ↔ _
      rw [hqueue,List.mem_append,List.mem_singleton]
      exact or_iff_left hmn
  · intro m hm
    obtain ⟨hmn,hm⟩ := update_eq_none hm
    obtain ⟨harrived,hflight⟩ := h.arrived m hm
    exact ⟨List.not_mem_append harrived fun hmem => hmn (List.mem_singleton.mp hmem),hflight⟩

theorem mem_erase_iff (h : w.Sound capacity) {m : Nat} (hmn : m ≠ n) :
    m ∈ w.inFlight.erase n ↔ m ∈ w.inFlight := by
  rw [h.nodup.mem_erase_iff]
  exact and_iff_right hmn

private theorem returned_fits (h : w.Sound capacity) {since : Int} (hc : w.call n = some c)
    (hphase : c.phase = .working since) (hw : w'.inFlight = w.inFlight.erase n)
    (hqueue : w'.resource.waitQueue.map Waiter.caller ⊆ w.resource.waitQueue.map Waiter.caller) :
    ({ c with phase := .returned } : DownstreamCall).Fits w' capacity n := by
  refine ⟨iff_of_false ?_ nofun,iff_of_false (fun hmem => ?_) nofun,nofun,nofun⟩
  · rw [hw,h.nodup.mem_erase_iff]
    exact fun hmem => hmem.1 rfl
  · have hwaiting := (h.calls n c hc).waiting.mp (hqueue hmem)
    rw [hphase] at hwaiting
    cases hwaiting

private theorem released (h : w.Sound capacity) {since : Int} (hc : w.call n = some c)
    (hphase : c.phase = .working since) (hqueue : w.resource.waitQueue = []) :
    ({ w.put n { c with phase := .returned } with
      resource := { w.resource with availableSlots := w.resource.availableSlots + 1 }
      inFlight := w.inFlight.erase n } : DownstreamWorld).Sound capacity := by
  have hmem : n ∈ w.inFlight := (h.calls n c hc).inFlight.mpr ⟨since,hphase⟩
  refine ⟨h.fixed,?_,h.nodup.erase n,fun hne => absurd hqueue hne,h.order,h.once,h.accounted,?_,?_⟩
  · have hslots := h.slots
    have hpos := List.length_pos_of_mem hmem
    change w.resource.availableSlots + 1 + (w.inFlight.erase n).length = capacity
    rw [List.length_erase_of_mem hmem]
    omega
  · intro m d hd
    rcases update_eq_some hd with ⟨rfl,rfl⟩ | ⟨hmn,hd⟩
    · exact h.returned_fits hc hphase rfl (List.Subset.refl _)
    · exact h.other hd (h.mem_erase_iff hmn) Iff.rfl (List.Subset.refl _) (List.Subset.refl _)
  · intro m hm
    obtain ⟨hmn,hm⟩ := update_eq_none hm
    obtain ⟨harrived,hflight⟩ := h.arrived m hm
    exact ⟨harrived,fun hin => hflight (List.mem_of_mem_erase hin)⟩

theorem finish_eq (h : w.Sound capacity) {since : Int} {entry : Waiter} {rest : List Waiter}
    (hc : w.call n = some c) (hphase : c.phase = .working since)
    (hqueue : w.resource.waitQueue = entry::rest) :
    ∃ d, entry.caller ≠ n ∧ w.call entry.caller = some d ∧ d.phase = .waiting ∧
      w.finish n c = ({ w.put n { c with phase := .returned } with
        resource := { w.resource with waitQueue := rest }
        inFlight := w.inFlight.erase n } : DownstreamWorld).grant entry.caller d := by
  have hin : entry.caller ∈ w.resource.waitQueue.map Waiter.caller := by
    rw [hqueue]
    exact List.mem_cons_self
  obtain ⟨d,hd,hwaiting⟩ := h.of_mem_queue hin
  have hne : entry.caller ≠ n := by
    intro heq
    rw [heq,hc] at hd
    cases hd
    rw [hphase] at hwaiting
    cases hwaiting
  refine ⟨d,hne,hd,hwaiting,?_⟩
  have hcall : (w.put n { c with phase := .returned }).call entry.caller = some d := by
    change Function.update w.call n _ entry.caller = some d
    rw [Function.update_of_ne hne,hd]
  simp only [finish,BoundedResource.release,hqueue,hcall]

private theorem handedOver (h : w.Sound capacity) {since : Int} {entry : Waiter}
    {rest : List Waiter}
    (hc : w.call n = some c) (hphase : c.phase = .working since)
    (hqueue : w.resource.waitQueue = entry::rest) : (w.finish n c).Sound capacity := by
  obtain ⟨d,hne,hd,hwaiting,hfinish⟩ := h.finish_eq hc hphase hqueue
  rw [hfinish]
  have hmem : n ∈ w.inFlight := (h.calls n c hc).inFlight.mpr ⟨since,hphase⟩
  have hgranted : (w.granted ++ [(entry.caller,w.clock)]).map Prod.fst ++ rest.map Waiter.caller =
      w.granted.map Prod.fst ++ w.resource.waitQueue.map Waiter.caller := by
    rw [hqueue,List.map_append,List.append_assoc]
    rfl
  have hidle : entry.caller ∉ w.inFlight := by
    intro hin
    obtain ⟨since',hworking⟩ := (h.calls _ d hd).inFlight.mp hin
    rw [hwaiting] at hworking
    cases hworking
  have hfirst : entry.caller ∉ rest.map Waiter.caller := by
    have hnodup := h.queue_nodup.of_append_right
    rw [hqueue,List.map_cons] at hnodup
    exact (List.nodup_cons.mp hnodup).1
  refine ⟨h.fixed,?_,?_,fun _ => ?_,?_,h.once,?_,?_,?_⟩
  · have hslots := h.slots
    have hpos := List.length_pos_of_mem hmem
    change w.resource.availableSlots + (w.inFlight.erase n ++ [entry.caller]).length = capacity
    rw [List.length_append,List.length_erase_of_mem hmem,List.length_singleton]
    omega
  · refine List.nodup_append'.mpr ⟨h.nodup.erase n,List.nodup_singleton _,?_⟩
    intro m hold hlast
    rw [List.mem_singleton.mp hlast] at hold
    exact hidle (List.mem_of_mem_erase hold)
  · exact h.busy (by rw [hqueue]; exact List.cons_ne_nil _ _)
  · change ((w.granted ++ [(entry.caller,w.clock)]).map Prod.fst ++
      rest.map Waiter.caller).Sublist w.arrivals
    rw [hgranted]
    exact h.order
  · change w.arrivals.Perm ((w.granted ++ [(entry.caller,w.clock)]).map Prod.fst ++
      rest.map Waiter.caller ++ w.rejected)
    rw [hgranted]
    exact h.accounted
  · intro m e he
    rcases update_eq_some he with ⟨rfl,rfl⟩ | ⟨hme,he⟩
    · refine ⟨?_,iff_of_false hfirst nofun,?_,nofun⟩
      · exact iff_of_true (List.mem_append_right _ (List.mem_singleton_self _)) ⟨_,rfl⟩
      · intro since' hworking
        cases hworking
        exact List.mem_append_right _ (List.mem_singleton_self _)
    · have hlast : m ∉ [entry.caller] := fun hmem => hme (List.mem_singleton.mp hmem)
      rcases update_eq_some he with ⟨rfl,rfl⟩ | ⟨hmn,he⟩
      · refine ⟨iff_of_false ?_ nofun,iff_of_false (fun hin => ?_) nofun,nofun,nofun⟩
        · refine List.not_mem_append ?_ hlast
          rw [h.nodup.mem_erase_iff]
          exact fun hin => hin.1 rfl
        · have hin : m ∈ w.resource.waitQueue.map Waiter.caller := by
            rw [hqueue]
            exact List.mem_cons_of_mem _ hin
          have hwait := (h.calls m c hc).waiting.mp hin
          rw [hphase] at hwait
          cases hwait
      · refine h.other he ?_ ?_ (List.subset_append_left _ _) (List.Subset.refl _)
        · change m ∈ w.inFlight.erase n ++ [entry.caller] ↔ _
          rw [List.mem_append,h.mem_erase_iff hmn]
          exact or_iff_left hlast
        · change m ∈ rest.map Waiter.caller ↔ _
          rw [hqueue,List.map_cons,List.mem_cons]
          exact (or_iff_right hme).symm
  · intro m hm
    obtain ⟨hme,hm⟩ := update_eq_none hm
    obtain ⟨hmn,hm⟩ := update_eq_none hm
    obtain ⟨harrived,hflight⟩ := h.arrived m hm
    refine ⟨harrived,List.not_mem_append ?_ fun hmem => hme (List.mem_singleton.mp hmem)⟩
    exact fun hin => hflight (List.mem_of_mem_erase hin)

theorem map_caller_eraseP (n : Nat) (queue : List Waiter) :
    (queue.eraseP (·.caller == n)).map Waiter.caller = (queue.map Waiter.caller).erase n := by
  rw [List.erase_eq_eraseP,List.eraseP_map]
  simp only [Function.comp_def,BEq.comm]

private theorem timedOut (h : w.Sound capacity) (hc : w.call n = some c)
    (hphase : c.phase = .waiting) :
    ({ w.put n { c with
        phase := .threw (timedOutMessage c.acquireTimeoutMs w.resource.capacity) } with
      resource := w.resource.timeOut n
      rejected := w.rejected ++ [n] } : DownstreamWorld).Sound capacity := by
  have hin : n ∈ w.resource.waitQueue.map Waiter.caller := (h.calls n c hc).waiting.mpr hphase
  have hnodup := h.queue_nodup.of_append_right
  refine ⟨h.fixed,h.slots,h.nodup,fun hne => h.busy fun hnil => hne ?_,?_,h.once,?_,?_,?_⟩
  · change w.resource.waitQueue.eraseP _ = []
    rw [hnil]
    rfl
  · change (w.granted.map Prod.fst ++ (w.resource.waitQueue.eraseP _).map Waiter.caller).Sublist
      w.arrivals
    rw [map_caller_eraseP]
    exact ((List.erase_sublist).append_left _).trans h.order
  · change w.arrivals.Perm (w.granted.map Prod.fst ++
      (w.resource.waitQueue.eraseP _).map Waiter.caller ++ (w.rejected ++ [n]))
    rw [map_caller_eraseP]
    refine h.accounted.trans ?_
    have hperm := ((List.perm_cons_erase hin).append_left (w.granted.map Prod.fst)).append_right
      w.rejected
    refine hperm.trans ?_
    simp only [List.append_assoc,List.cons_append]
    refine List.Perm.append_left _ (List.perm_middle.symm.trans ?_)
    exact (List.perm_append_singleton n w.rejected).symm.append_left _
  · intro m d hd
    rcases update_eq_some hd with ⟨rfl,rfl⟩ | ⟨hmn,hd⟩
    · refine ⟨iff_of_false ?_ nofun,iff_of_false ?_ nofun,nofun,?_⟩
      · intro hflight
        obtain ⟨since,hworking⟩ := (h.calls m c hc).inFlight.mp hflight
        rw [hphase] at hworking
        cases hworking
      · change m ∉ (w.resource.waitQueue.eraseP _).map Waiter.caller
        rw [map_caller_eraseP,hnodup.mem_erase_iff]
        exact fun hmem => hmem.1 rfl
      · intro error herror
        cases herror
        rw [h.fixed]
        exact ⟨List.mem_append_right _ (List.mem_singleton_self m),rfl⟩
    · refine h.other hd Iff.rfl ?_ (List.Subset.refl _) (List.subset_append_left _ _)
      change m ∈ (w.resource.waitQueue.eraseP _).map Waiter.caller ↔ _
      rw [map_caller_eraseP,hnodup.mem_erase_iff]
      exact and_iff_right hmn
  · intro m hm
    obtain ⟨_,hm⟩ := update_eq_none hm
    exact h.arrived m hm

theorem move {e : DownstreamEvent} (h : w.Sound capacity) (hmove : DownstreamMove w e w') :
    w'.Sound capacity := by
  cases hmove with
  | advanced ms => exact h.advanced ms
  | admitted n c hnone hfree _ _ => exact h.admitted hnone hfree
  | queued n c hnone hbusy _ _ hphase => exact h.queued hnone hbusy hphase _
  | released n c since hc hphase _ hqueue => exact h.released hc hphase hqueue
  | handedOver n c since entry rest hc hphase _ hqueue => exact h.handedOver hc hphase hqueue
  | timedOut n c hc hphase _ => exact h.timedOut hc hphase

theorem reachable {clock : Int} (h : Reachable downstreamStep (· = fresh capacity clock) w) :
    w.Sound capacity := by
  apply ReachableBy.invariant (s := w) ?_ ?_ h
  · rintro s rfl
    exact start capacity clock
  · exact fun _ _ _ hs _ hstep => hs.move (downstreamStep_move hstep)

end DownstreamWorld.Sound

/-- However many calls there are, and however they interleave with timers. -/
theorem callSlowDownstream_fair {w : DownstreamWorld} {capacity : Nat} {clock : Int}
    (h : Reachable downstreamStep (· = .fresh capacity clock) w) : w.Fair capacity :=
  (DownstreamWorld.Sound.reachable h).fair

/-- Two callers of a resource with one slot, and a third that gives up. -/
theorem callSlowDownstream_fair_three : ∃ w : DownstreamWorld, w.Fair 1 ∧
    w.granted = [(0,0),(1,10)] ∧ w.rejected = [2] := by
  have hend : (run downstreamStep (.fresh 1 0) [.callSlowDownstream 0 10 100,
      .callSlowDownstream 1 10 100,.callSlowDownstream 2 10 5,.advance 10,.timeOut 2,
      .finish 0]).any (fun w => w.granted == [(0,0),(1,10)] && w.rejected == [2]) = true := by decide
  obtain ⟨w,_,hresult,hreachable⟩ := exists_run_of_any hend
  rw [Bool.and_eq_true,beq_iff_eq,beq_iff_eq] at hresult
  exact ⟨w,callSlowDownstream_fair hreachable,hresult⟩

end SystemsLab.Backpressure
