import Mathlib.Algebra.Ring.Int.Defs
import Mathlib.Data.List.MinMax
import Mathlib.Data.List.Nodup
import Mathlib.Data.List.Perm.Subperm
import Mathlib.Data.Prod.Lex
import Mathlib.Tactic.Basic

/-!
# Tables as lists of rows

The SQL the programs send is short: `UPDATE … WHERE`, `INSERT`, and the queue idiom
`SELECT … ORDER BY … FOR UPDATE SKIP LOCKED LIMIT 1`. Rows stay in insertion order.
-/

namespace SystemsLab

variable {ρ κ : Type*}

/-- The largest value of a Postgres `integer`. -/
def maxInteger : Int := 2147483647

/-- `UPDATE t SET f WHERE p`. -/
def updateWhere (p : ρ → Bool) (f : ρ → ρ) (rows : List ρ) : List ρ :=
  rows.map fun r => if p r then f r else r

theorem mem_updateWhere {p : ρ → Bool} {f : ρ → ρ} {rows : List ρ} {r : ρ} :
    r ∈ updateWhere p f rows ↔ ∃ q ∈ rows, (if p q then f q else q) = r := by
  simp [updateWhere]

theorem forall_mem_updateWhere {P Q : ρ → Prop} {p : ρ → Bool} {f : ρ → ρ} {rows : List ρ}
    (h : ∀ r ∈ rows, P r) (hhit : ∀ r ∈ rows, P r → p r = true → Q (f r))
    (hmiss : ∀ r ∈ rows, P r → p r = false → Q r) :
    ∀ r ∈ updateWhere p f rows, Q r := by
  intro r hr
  obtain ⟨q,hq,rfl⟩ := mem_updateWhere.mp hr
  cases hp : p q with
  | true => simpa [hp] using hhit q hq (h q hq) hp
  | false => simpa [hp] using hmiss q hq (h q hq) hp

theorem map_updateWhere {p : ρ → Bool} {f : ρ → ρ} (key : ρ → κ) (hf : ∀ r, key (f r) = key r)
    (rows : List ρ) : (updateWhere p f rows).map key = rows.map key := by
  simp only [updateWhere,List.map_map]
  apply List.map_congr_left
  intro r _
  simp only [Function.comp_apply]
  split
  · exact hf r
  · rfl

theorem getElem?_updateWhere (p : ρ → Bool) (f : ρ → ρ) (rows : List ρ) (i : Nat) :
    (updateWhere p f rows)[i]? = (rows[i]?).map fun r => if p r then f r else r :=
  List.getElem?_map

/-- An update that settles the rows it writes leaves the others unsettled. -/
theorem countP_updateWhere_add {p q : ρ → Bool} {f : ρ → ρ} {rows : List ρ}
    (hp : ∀ r ∈ rows, p r = true → q r = true) (hf : ∀ r, q (f r) = false) :
    (updateWhere p f rows).countP q + rows.countP p = rows.countP q := by
  induction rows with
  | nil => rfl
  | cons r rows ih =>
    have htail := ih fun r hr => hp r (List.mem_cons_of_mem _ hr)
    have hhead := hp r List.mem_cons_self
    have hcons : updateWhere p f (r::rows) = (if p r then f r else r)::updateWhere p f rows := rfl
    rw [hcons,List.countP_cons,List.countP_cons,List.countP_cons]
    cases hhit : p r with
    | true =>
      have hq := hhead hhit
      simp [hf,hq]
      omega
    | false =>
      simp
      omega

theorem updateWhere_of_forall_not {p : ρ → Bool} (f : ρ → ρ) {rows : List ρ}
    (h : ∀ r ∈ rows, p r = false) : updateWhere p f rows = rows := by
  refine (List.map_congr_left fun r hr => ?_).trans (List.map_id rows)
  simp [h r hr]

theorem eq_of_key_eq {key : ρ → κ} {rows : List ρ} (hn : (rows.map key).Nodup) {r q : ρ}
    (hr : r ∈ rows) (hq : q ∈ rows) (h : key r = key q) : r = q :=
  List.inj_on_of_nodup_map hn hr hq h

theorem eq_of_length_le_one {rows : List ρ} (h : rows.length ≤ 1) {r q : ρ} (hr : r ∈ rows)
    (hq : q ∈ rows) : r = q := by
  cases rows with
  | nil => cases hr
  | cons x rows =>
    obtain rfl : rows = [] := List.eq_nil_of_length_eq_zero (Nat.le_zero.mp (Nat.le_of_succ_le_succ h))
    rw [List.mem_singleton.mp hr,List.mem_singleton.mp hq]

/-- A log in which every entry under one key has its own entry under another. -/
theorem count_snd_le {α β γ : Type*} [DecidableEq β] [DecidableEq γ] {xs : List (α × β)}
    {ys : List (α × γ)} (hxs : xs.Nodup) {b : β} {c : γ} (h : ∀ a, (a,b) ∈ xs → (a,c) ∈ ys) :
    (xs.map Prod.snd).count b ≤ (ys.map Prod.snd).count c := by
  have hleft : (xs.map Prod.snd).count b = (xs.filter (·.2 = b)).length := by
    rw [List.count,List.countP_map,List.countP_eq_length_filter]
    rfl
  have hright : (ys.map Prod.snd).count c = (ys.filter (·.2 = c)).length := by
    rw [List.count,List.countP_map,List.countP_eq_length_filter]
    rfl
  have hnodup : ((xs.filter (·.2 = b)).map fun x => (x.1,c)).Nodup := by
    refine (List.nodup_map_iff_inj_on (hxs.filter _)).mpr ?_
    rintro ⟨a,x⟩ hx ⟨a',x'⟩ hx' heq
    obtain rfl : x = b := by simpa using (List.mem_filter.mp hx).2
    obtain rfl : x' = x := by simpa using (List.mem_filter.mp hx').2
    obtain rfl : a = a' := (Prod.mk.inj heq).1
    rfl
  have hsub : ((xs.filter (·.2 = b)).map fun x => (x.1,c)) ⊆ ys.filter (·.2 = c) := by
    intro y hy
    obtain ⟨⟨a,x⟩,hx,rfl⟩ := List.mem_map.mp hy
    obtain ⟨hmem,heq⟩ := List.mem_filter.mp hx
    obtain rfl : x = b := of_decide_eq_true heq
    exact List.mem_filter.mpr ⟨h a hmem,decide_eq_true rfl⟩
  rw [hleft,hright,← List.length_map (f := fun x : α × β => (x.1,c))]
  exact (List.Nodup.subperm hnodup hsub).length_le

/-- `SELECT … WHERE key = k`. -/
def rowAt [DecidableEq κ] (key : ρ → κ) (rows : List ρ) (k : κ) : Option ρ :=
  rows.find? fun r => key r = k

theorem rowAt_some [DecidableEq κ] {key : ρ → κ} {rows : List ρ} {k : κ} {r : ρ}
    (h : rowAt key rows k = some r) : r ∈ rows ∧ key r = k :=
  ⟨List.mem_of_find?_eq_some h,by simpa using List.find?_some h⟩

theorem rowAt_of_mem [DecidableEq κ] {key : ρ → κ} {rows : List ρ} (hn : (rows.map key).Nodup)
    {r : ρ} (h : r ∈ rows) : rowAt key rows (key r) = some r := by
  have hs : (rowAt key rows (key r)).isSome := by
    rw [rowAt,List.find?_isSome]
    exact ⟨r,h,by simp⟩
  obtain ⟨q,hq⟩ := Option.isSome_iff_exists.mp hs
  have hqk := rowAt_some hq
  rw [hq,eq_of_key_eq hn hqk.1 h hqk.2]

theorem rowAt_updateWhere [DecidableEq κ] {key : ρ → κ} {p : ρ → Bool} {f : ρ → ρ}
    (hf : ∀ r, key (f r) = key r) (rows : List ρ) (k : κ) :
    rowAt key (updateWhere p f rows) k =
      (rowAt key rows k).map fun r => if p r then f r else r := by
  rw [rowAt,rowAt,updateWhere,List.find?_map]
  have hk : ((fun r => decide (key r = k)) ∘ fun r => if p r then f r else r) =
      fun r => decide (key r = k) := by
    funext r
    simp only [Function.comp_apply]
    split
    · rw [hf]
    · rfl
  rw [hk]

/-- `UPDATE … WHERE key = k AND p`, seen from one key. -/
theorem rowAt_updateWhere_key [DecidableEq κ] {key : ρ → κ} {p : ρ → Bool} {f : ρ → ρ}
    (hf : ∀ r, key (f r) = key r) (rows : List ρ) (k i : κ) :
    rowAt key (updateWhere (fun r => key r == k && p r) f rows) i =
      if i = k then (rowAt key rows k).map fun r => if p r then f r else r
      else rowAt key rows i := by
  rw [rowAt_updateWhere hf]
  by_cases hi : i = k
  · subst hi
    rw [if_pos rfl]
    cases hr : rowAt key rows i with
    | none => rfl
    | some r => simp [(rowAt_some hr).2]
  · rw [if_neg hi]
    cases hr : rowAt key rows i with
    | none => rfl
    | some r => simp [(rowAt_some hr).2,hi]

theorem nodup_append_fresh {key : ρ → κ} {rows : List ρ} {row : ρ} (hn : (rows.map key).Nodup)
    (hfresh : key row ∉ rows.map key) : ((rows ++ [row]).map key).Nodup := by
  rw [List.map_append,List.nodup_append]
  refine ⟨hn,List.nodup_singleton _,?_⟩
  intro a ha b hb hab
  rw [List.mem_singleton.mp hb] at hab
  exact hfresh (hab ▸ ha)

theorem nodup_append_next {key : ρ → Nat} {rows : List ρ} {row : ρ}
    (hn : (rows.map key).Nodup) (hlt : ∀ r ∈ rows, key r < key row) :
    ((rows ++ [row]).map key).Nodup := by
  apply nodup_append_fresh hn
  intro hmem
  obtain ⟨r,hr,heq⟩ := List.mem_map.mp hmem
  exact Nat.ne_of_lt (hlt r hr) heq

theorem forall_append_next {P : ρ → Prop} {rows : List ρ} {row : ρ} (h : ∀ r ∈ rows, P r)
    (hrow : P row) : ∀ r ∈ rows ++ [row], P r := by
  intro r hr
  rcases List.mem_append.mp hr with hold | hnew
  · exact h r hold
  · rw [List.mem_singleton.mp hnew]
    exact hrow

theorem filter_append_own {q : ρ → Bool} {rows : List ρ} {row : ρ} (h : q row = true) :
    (rows ++ [row]).filter q = rows.filter q ++ [row] := by
  rw [List.filter_append,List.filter_cons,if_pos h,List.filter_nil]

theorem filter_append_other {q : ρ → Bool} {rows : List ρ} {row : ρ} (h : q row = false) :
    (rows ++ [row]).filter q = rows.filter q := by
  simp [List.filter_append,h]

theorem filter_updateWhere {p q : ρ → Bool} {f : ρ → ρ} (hq : ∀ r, q (f r) = q r)
    (rows : List ρ) : (updateWhere p f rows).filter q = updateWhere p f (rows.filter q) := by
  induction rows with
  | nil => rfl
  | cons r rows ih =>
    have hcons : updateWhere p f (r::rows) = (if p r then f r else r)::updateWhere p f rows := rfl
    have hkeep : q (if p r then f r else r) = q r := by
      split
      · exact hq r
      · rfl
    rw [hcons,List.filter_cons,List.filter_cons,hkeep,ih]
    split <;> rfl

theorem filter_updateWhere_own [DecidableEq κ] {key : ρ → κ} {q : ρ → Bool} {f : ρ → ρ}
    (hq : ∀ r, q (f r) = q r) {rows : List ρ} {r : ρ} (hr : rows.filter q = [r]) :
    (updateWhere (key · == key r) f rows).filter q = [f r] := by
  rw [filter_updateWhere hq,hr]
  simp [updateWhere]

theorem filter_updateWhere_other [DecidableEq κ] {key : ρ → κ} {q : ρ → Bool} {f : ρ → ρ}
    (hq : ∀ r, q (f r) = q r) {rows : List ρ} (hn : (rows.map key).Nodup) {r : ρ}
    (hr : r ∈ rows) (hother : q r = false) :
    (updateWhere (key · == key r) f rows).filter q = rows.filter q := by
  rw [filter_updateWhere hq]
  apply updateWhere_of_forall_not
  intro x hx
  have hxmem := List.mem_filter.mp hx
  by_contra hkey
  have heq := eq_of_key_eq hn hxmem.1 hr (by simpa using hkey)
  rw [heq,hother] at hxmem
  exact Bool.false_ne_true hxmem.2

theorem sum_updateWhere_key [DecidableEq κ] {key : ρ → κ} {f : ρ → ρ} (amount : ρ → Int)
    {rows : List ρ} (hn : (rows.map key).Nodup) {r : ρ} (hr : r ∈ rows) :
    ((updateWhere (key · == key r) f rows).map amount).sum =
      (rows.map amount).sum - amount r + amount (f r) := by
  induction rows with
  | nil => cases hr
  | cons x rows ih =>
    rw [List.map_cons,List.nodup_cons] at hn
    have hcons : updateWhere (key · == key r) f (x::rows) =
      (if key x == key r then f x else x)::updateWhere (key · == key r) f rows := rfl
    rw [hcons,List.map_cons,List.map_cons,List.sum_cons,List.sum_cons]
    cases hr with
    | head =>
      have hmiss : updateWhere (key · == key r) f rows = rows := by
        apply updateWhere_of_forall_not
        intro y hy
        by_contra hkey
        have heq : key y = key r := by simpa using hkey
        exact hn.1 (heq ▸ List.mem_map_of_mem hy)
      rw [hmiss,if_pos (beq_self_eq_true _)]
      omega
    | tail _ hr =>
      have hne : (key x == key r) = false := by
        rw [beq_eq_false_iff_ne]
        intro heq
        exact hn.1 (heq ▸ List.mem_map_of_mem hr)
      rw [hne,ih hn.2 hr]
      simp only [Bool.false_eq_true,if_false]
      omega

theorem countP_updateWhere_key [DecidableEq κ] {key : ρ → κ} {f : ρ → ρ} (p : ρ → Bool)
    {rows : List ρ} (hn : (rows.map key).Nodup) {r : ρ} (hr : r ∈ rows) :
    (updateWhere (key · == key r) f rows).countP p + (if p r then 1 else 0) =
      rows.countP p + if p (f r) then 1 else 0 := by
  have hsum : ∀ xs : List ρ,
      ((xs.countP p : Nat) : Int) = (xs.map fun x => if p x then (1 : Int) else 0).sum := by
    intro xs
    induction xs with
    | nil => rfl
    | cons x xs ih =>
      rw [List.countP_cons,List.map_cons,List.sum_cons,← ih]
      split <;> simp
      omega
  have hupdate := sum_updateWhere_key (f := f) (fun x => if p x then (1 : Int) else 0) hn hr
  rw [← hsum,← hsum] at hupdate
  split_ifs at hupdate ⊢ <;> omega

variable [LinearOrder κ]

/-- `SELECT … WHERE p ORDER BY key FOR UPDATE SKIP LOCKED LIMIT 1`. The rows that other
transactions hold locked are passed over. -/
def selectSkipLocked (p locked : ρ → Bool) (key : ρ → κ) (rows : List ρ) : Option ρ :=
  (rows.filter fun r => p r && !locked r).argmin key

theorem selectSkipLocked_some {p locked : ρ → Bool} {key : ρ → κ} {rows : List ρ} {r : ρ}
    (h : selectSkipLocked p locked key rows = some r) :
    r ∈ rows ∧ p r = true ∧ locked r = false := by
  have hm := List.argmin_mem h
  simpa using List.mem_filter.mp hm

/-- What a client learns about a transaction it asked to commit: it committed, it committed
and the reply was lost, or it was rolled back. The last two look the same to the client. -/
inductive Commit
  | acknowledged
  | replyLost
  | rolledBack
  deriving DecidableEq, Repr

def Commit.applied : Commit → Bool
  | .rolledBack => false
  | _ => true

end SystemsLab
