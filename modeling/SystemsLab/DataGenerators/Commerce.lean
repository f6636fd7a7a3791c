import Mathlib.Data.Nat.Basic
import SystemsLab.Framework.RandomState

/-!
# Generated orders

`generateOrders` and `generateOrdersBatched` draw orders customer by customer. The first sorts
them all by `placedAt`. The second hands them out in batches as they are drawn. Each has its own
copy of the loops.
-/

namespace SystemsLab.DataGenerators

structure GeneratedCustomer where
  publicId : String
  fullName : String
  email : String
  country : String
  deriving DecidableEq, Repr

structure GeneratedProduct where
  publicId : String
  sku : String
  name : String
  category : String
  unitPriceCents : ℕ
  deriving DecidableEq, Repr

inductive OrderStatus
  | pending
  | paid
  | shipped
  | cancelled
  deriving DecidableEq, Repr

structure GeneratedOrderLine where
  productIndex : ℕ
  quantity : ℕ
  unitPriceCents : ℕ
  lineTotalCents : ℕ
  deriving DecidableEq, Repr

/-- `placedAt` is given in milliseconds. -/
structure GeneratedOrder where
  customerIndex : ℕ
  status : OrderStatus
  placedAt : ℤ
  lines : List GeneratedOrderLine
  deriving DecidableEq, Repr

/-- The methods of faker that the generators call, over the states of its random numbers. The
dates are taken before one fixed reference date. -/
structure Faker (σ : Type) where
  seed : ℤ → σ
  int (min max : ℕ) : StateM σ ℕ
  past (years : ℕ) : StateM σ ℤ
  arrayElement {α : Type} (array : List α) (nonempty : array ≠ []) : StateM σ α
  arrayElements {α : Type} (array : List α) (count : ℕ) : StateM σ (List α)
  uuid : StateM σ String

def STATUS_WEIGHTS : List (OrderStatus × ℕ) :=
  [(.paid,55),(.shipped,25),(.pending,12),(.cancelled,8)]

def statusPool : List OrderStatus :=
  STATUS_WEIGHTS.flatMap fun s => List.replicate s.2 s.1

private theorem statusPool_ne_nil : statusPool ≠ [] := by decide

/-- Four fifths of the catalog, but at least one product. -/
def orderableProductCount (products : List GeneratedProduct) : ℕ :=
  max 1 (products.length * 4 / 5)

def productIndexes (products : List GeneratedProduct) : List (Fin products.length) :=
  (List.finRange products.length).take (orderableProductCount products)

/-- JavaScript's `sort` is stable, as is this one. -/
def sortByPlacedAt (orders : List GeneratedOrder) : List GeneratedOrder :=
  orders.mergeSort fun a b => decide (a.placedAt ≤ b.placedAt)

section Generators

variable {σ : Type} (faker : Faker σ) (customers : List GeneratedCustomer)
  (products : List GeneratedProduct) (maxOrdersPerCustomer : ℕ)

/-- The orders in the order in which they are pushed. -/
def pushOrders : StateM σ (List GeneratedOrder) :=
  (List.range customers.length).foldlM (fun (orders : List GeneratedOrder) customerIndex => do
    let orderCount ← faker.int 0 maxOrdersPerCustomer
    (List.range orderCount).foldlM (fun orders _ => do
      let placedAt ← faker.past 1
      let status ← faker.arrayElement statusPool statusPool_ne_nil
      let lineCount ← faker.int 1 5
      let chosenProductIndexes ← faker.arrayElements (productIndexes products) lineCount
      let lines : List GeneratedOrderLine ← chosenProductIndexes.mapM fun productIndex => do
        let product := products.get productIndex
        let quantity ← faker.int 1 4
        let unitPriceCents := product.unitPriceCents
        return ⟨productIndex,quantity,unitPriceCents,quantity * unitPriceCents⟩
      return orders ++ [⟨customerIndex,status,placedAt,lines⟩]) orders) []

def generateOrders (seed : ℤ) : List GeneratedOrder :=
  sortByPlacedAt
    ((pushOrders faker customers products maxOrdersPerCustomer).run (faker.seed (seed + 2))).1

/-- The batch that is being filled, and those that have been yielded. -/
structure Batches where
  yielded : List (List GeneratedOrder) := []
  batch : List GeneratedOrder := []

def Batches.push (batchSize : ℕ) (batches : Batches) (order : GeneratedOrder) : Batches :=
  let batch := batches.batch ++ [order]
  if batch.length ≥ batchSize then { yielded := batches.yielded ++ [batch] }
  else { batches with batch }

/-- The last batch is yielded as well, unless it is empty. -/
def Batches.finish (batches : Batches) : List (List GeneratedOrder) :=
  if batches.batch.length > 0 then batches.yielded ++ [batches.batch] else batches.yielded

def pushBatches (batchSize : ℕ) : StateM σ Batches :=
  (List.range customers.length).foldlM (fun (batches : Batches) customerIndex => do
    let orderCount ← faker.int 0 maxOrdersPerCustomer
    (List.range orderCount).foldlM (fun batches _ => do
      let placedAt ← faker.past 1
      let status ← faker.arrayElement statusPool statusPool_ne_nil
      let lineCount ← faker.int 1 5
      let chosenProductIndexes ← faker.arrayElements (productIndexes products) lineCount
      let lines : List GeneratedOrderLine ← chosenProductIndexes.mapM fun productIndex => do
        let product := products.get productIndex
        let quantity ← faker.int 1 4
        let unitPriceCents := product.unitPriceCents
        return ⟨productIndex,quantity,unitPriceCents,quantity * unitPriceCents⟩
      return batches.push batchSize ⟨customerIndex,status,placedAt,lines⟩) batches) {}

end Generators

structure GenerateOrdersBatchedOptions where
  customers : List GeneratedCustomer
  products : List GeneratedProduct
  maxOrdersPerCustomer : ℕ
  seed : ℤ
  batchSize : ℕ := 1000

/-- The batches a consumer gets that reads to the end. -/
def generateOrdersBatched {σ : Type} (faker : Faker σ) (options : GenerateOrdersBatchedOptions) :
    List (List GeneratedOrder) :=
  ((pushBatches faker options.customers options.products options.maxOrdersPerCustomer
    options.batchSize).run (faker.seed (options.seed + 2))).1.finish

theorem placedAt_trans (a b c : GeneratedOrder) (hab : decide (a.placedAt ≤ b.placedAt) = true)
    (hbc : decide (b.placedAt ≤ c.placedAt) = true) : decide (a.placedAt ≤ c.placedAt) = true :=
  decide_eq_true (Int.le_trans (of_decide_eq_true hab) (of_decide_eq_true hbc))

private theorem placedAt_total (a b : GeneratedOrder) :
    (decide (a.placedAt ≤ b.placedAt) || decide (b.placedAt ≤ a.placedAt)) = true := by
  rw [Bool.or_eq_true,decide_eq_true_eq,decide_eq_true_eq]
  exact Int.le_total _ _

private theorem sortByPlacedAt_perm (orders : List GeneratedOrder) :
    (sortByPlacedAt orders).Perm orders :=
  List.mergeSort_perm orders _

private theorem sortByPlacedAt_pairwise (orders : List GeneratedOrder) :
    (sortByPlacedAt orders).Pairwise fun a b => a.placedAt ≤ b.placedAt :=
  (List.pairwise_mergeSort placedAt_trans placedAt_total orders).imp fun h => of_decide_eq_true h

private theorem sortByPlacedAt_stable (orders : List GeneratedOrder) (t : ℤ) :
    (sortByPlacedAt orders).filter (·.placedAt = t) = orders.filter (·.placedAt = t) := by
  have hsame : (orders.filter (·.placedAt = t)).Pairwise
      fun a b => decide (a.placedAt ≤ b.placedAt) = true := by
    refine List.pairwise_of_forall_mem_list fun a ha b hb => ?_
    have ha : a.placedAt = t := of_decide_eq_true (List.mem_filter.mp ha).2
    have hb : b.placedAt = t := of_decide_eq_true (List.mem_filter.mp hb).2
    exact decide_eq_true (Int.le_of_eq (ha.trans hb.symm))
  have hsub : List.Sublist (orders.filter (·.placedAt = t)) (sortByPlacedAt orders) :=
    List.sublist_mergeSort placedAt_trans placedAt_total hsame List.filter_sublist
  have hfilter := hsub.filter (·.placedAt = t)
  rw [List.filter_filter] at hfilter
  simp only [Bool.and_self] at hfilter
  exact (hfilter.eq_of_length ((sortByPlacedAt_perm orders).filter _).length_eq.symm).symm

/-- The batches hold the orders pushed so far, and all but the one being filled are full. -/
structure Batches.Holds (batchSize : ℕ) (orders : List GeneratedOrder) (batches : Batches) :
    Prop where
  flatten : batches.yielded.flatten ++ batches.batch = orders
  full : ∀ b ∈ batches.yielded, b.length = batchSize
  room : batches.batch.length < batchSize

private theorem Batches.Holds.push {batchSize : ℕ} {orders : List GeneratedOrder}
    {batches : Batches}
    (h : batches.Holds batchSize orders) (order : GeneratedOrder) :
    (batches.push batchSize order).Holds batchSize (orders ++ [order]) := by
  have hroom := h.room
  have hlen : (batches.batch ++ [order]).length = batches.batch.length + 1 := List.length_append
  unfold Batches.push
  dsimp only
  split
  · constructor
    · rw [List.flatten_append,List.flatten_singleton,List.append_nil,← List.append_assoc,h.flatten]
    · intro b hb
      rcases List.mem_append.mp hb with hb | hb
      · exact h.full b hb
      · rw [List.mem_singleton.mp hb]
        omega
    · show 0 < batchSize
      omega
  · constructor
    · rw [← List.append_assoc,h.flatten]
    · exact h.full
    · show (batches.batch ++ [order]).length < batchSize
      omega

private theorem Batches.Holds.flatten_finish {batchSize : ℕ} {orders : List GeneratedOrder}
    {batches : Batches} (h : batches.Holds batchSize orders) :
    batches.finish.flatten = orders := by
  unfold Batches.finish
  split
  · rw [List.flatten_append,List.flatten_singleton,h.flatten]
  · have hnil : batches.batch = [] := List.length_eq_zero_iff.mp (by omega)
    rw [← h.flatten,hnil,List.append_nil]

private theorem Batches.Holds.ne_nil {batchSize : ℕ} {orders : List GeneratedOrder}
    {batches : Batches}
    (h : batches.Holds batchSize orders) {b : List GeneratedOrder} (hb : b ∈ batches.finish) :
    b ≠ [] := by
  have hroom := h.room
  have hyielded : ∀ b ∈ batches.yielded, b ≠ [] := by
    rintro _ hb rfl
    have hfull : 0 = batchSize := h.full [] hb
    omega
  unfold Batches.finish at hb
  split at hb
  · rcases List.mem_append.mp hb with hb | hb
    · exact hyielded b hb
    · rw [List.mem_singleton.mp hb]
      exact List.ne_nil_of_length_pos (by omega)
  · exact hyielded b hb

private theorem Batches.Holds.full_finish {batchSize : ℕ} {orders : List GeneratedOrder}
    {batches : Batches} (h : batches.Holds batchSize orders) {b : List GeneratedOrder}
    (hb : b ∈ batches.finish.dropLast) : b.length = batchSize := by
  apply h.full
  unfold Batches.finish at hb
  split at hb
  · rwa [List.dropLast_concat] at hb
  · exact (List.dropLast_sublist _).subset hb

variable {σ : Type} (faker : Faker σ) (customers : List GeneratedCustomer)
  (products : List GeneratedProduct) (maxOrdersPerCustomer : ℕ)

/-- The two copies of the loops draw the same numbers. -/
theorem pushOrders_lockstep {batchSize : ℕ} (h : 0 < batchSize) :
    Lockstep (fun orders batches => Batches.Holds batchSize orders batches)
      (pushOrders faker customers products maxOrdersPerCustomer)
      (pushBatches faker customers products maxOrdersPerCustomer batchSize) := by
  unfold pushOrders pushBatches
  apply Lockstep.foldlM
  · intro customerIndex orders batches hholds
    apply Lockstep.draw
    intro orderCount
    refine Lockstep.foldlM ?_ _ hholds
    intro _ orders batches hholds
    apply Lockstep.draw
    intro placedAt
    apply Lockstep.draw
    intro status
    apply Lockstep.draw
    intro lineCount
    apply Lockstep.draw
    intro chosenProductIndexes
    apply Lockstep.draw
    intro lines
    exact Lockstep.pure (hholds.push _)
  · exact ⟨rfl,nofun,h⟩

private theorem generateOrdersBatched_holds (options : GenerateOrdersBatchedOptions)
    (h : 1 ≤ options.batchSize) : ∃ batches : Batches,
      generateOrdersBatched faker options = batches.finish ∧
      batches.Holds options.batchSize ((pushOrders faker options.customers options.products
        options.maxOrdersPerCustomer).run (faker.seed (options.seed + 2))).1 :=
  ⟨_,rfl,(pushOrders_lockstep faker options.customers options.products
    options.maxOrdersPerCustomer h).value _⟩

/-- The batches hold the orders of `generateOrders`, unsorted, and are full except for the last
one. The third and the fourth clause say what the sort does: the orders stand by `placedAt`, and
those that are placed at one time as they stand in the batches. -/
theorem generateOrdersBatched_spec (options : GenerateOrdersBatchedOptions)
    (h : 1 ≤ options.batchSize) :
    let batches := generateOrdersBatched faker options
    let orders := generateOrders faker options.customers options.products
      options.maxOrdersPerCustomer options.seed
    sortByPlacedAt batches.flatten = orders ∧ orders.Perm batches.flatten ∧
      orders.Pairwise (fun a b => a.placedAt ≤ b.placedAt) ∧
      (∀ t, orders.filter (·.placedAt = t) = batches.flatten.filter (·.placedAt = t)) ∧
      (∀ b ∈ batches.dropLast, b.length = options.batchSize) ∧ (∀ b ∈ batches, b ≠ []) ∧
      ∀ batchSize, 1 ≤ batchSize →
        (generateOrdersBatched faker { options with batchSize }).flatten = batches.flatten := by
  obtain ⟨batches,heq,hholds⟩ := generateOrdersBatched_holds faker options h
  dsimp only
  rw [heq,hholds.flatten_finish]
  refine ⟨rfl,sortByPlacedAt_perm _,sortByPlacedAt_pairwise _,sortByPlacedAt_stable _,
    fun b hb => hholds.full_finish hb,fun b hb => hholds.ne_nil hb,?_⟩
  intro batchSize hsize
  obtain ⟨others,hothers,hsame⟩ :=
    generateOrdersBatched_holds faker { options with batchSize } hsize
  rw [hothers,hsame.flatten_finish]

/-- A faker whose random state counts the draws. -/
def countingFaker : Faker ℕ where
  seed n := n.toNat
  int min max s := (min + s % (max + 1 - min),s + 1)
  past _ s := (100 - s * 7 % 50,s + 1)
  arrayElement array nonempty s :=
    (array.get ⟨s % array.length,Nat.mod_lt _ (List.length_pos_iff.mpr nonempty)⟩,s + 1)
  arrayElements array count s := (array.take count,s + 1)
  uuid s := (toString s,s + 1)

def fewOrders : GenerateOrdersBatchedOptions where
  customers := [⟨"c1","Ada","ada@example.com","Canada"⟩,⟨"c2","Bo","bo@example.com","France"⟩]
  products := [⟨"p1","SKU-000001","Lamp","home",1200⟩,⟨"p2","SKU-000002","Desk","home",9900⟩]
  maxOrdersPerCustomer := 5
  seed := 3
  batchSize := 4

example : (generateOrdersBatched countingFaker fewOrders).map List.length = [4,2] := by
  decide +kernel

theorem fewOrders_spec :
    let batches := generateOrdersBatched countingFaker fewOrders
    let orders := generateOrders countingFaker fewOrders.customers fewOrders.products 5 3
    sortByPlacedAt batches.flatten = orders ∧ orders.Perm batches.flatten ∧
      orders.Pairwise (fun a b => a.placedAt ≤ b.placedAt) ∧
      (∀ b ∈ batches.dropLast, b.length = 4) ∧ ∀ b ∈ batches, b ≠ [] := by
  obtain ⟨hsorted,hperm,hordered,-,hfull,hne,-⟩ :=
    generateOrdersBatched_spec countingFaker fewOrders (by decide)
  exact ⟨hsorted,hperm,hordered,hfull,hne⟩

end SystemsLab.DataGenerators
