import SystemsLab.Framework.Table
import Mathlib.Algebra.Order.Ring.Int
import Mathlib.Data.List.Perm.Basic

/-!
# One entry of a list

A list holds what is known of each party, and one of its entries changes. What follows from it are
sums over all entries, and the rows that some entries have in a table.
-/

namespace SystemsLab

variable {α β : Type*} {entries : List α} {n : Nat} {a b : α}

theorem sum_map_set (f : α → Int) (h : entries[n]? = some a) (b : α) :
    ((entries.set n b).map f).sum = (entries.map f).sum + (f b - f a) := by
  induction entries generalizing n with
  | nil => simp at h
  | cons c rest ih =>
    cases n with
    | zero =>
      obtain rfl : c = a := by simpa using h
      simp only [List.set_cons_zero,List.map_cons,List.sum_cons]
      omega
    | succ n =>
      have hrest := ih (n := n) (by simpa using h)
      simp only [List.set_cons_succ,List.map_cons,List.sum_cons]
      omega

theorem filterMap_set_same {f : α → Option β} (h : entries[n]? = some a) (hf : f b = f a) :
    (entries.set n b).filterMap f = entries.filterMap f := by
  induction entries generalizing n with
  | nil => simp at h
  | cons c rest ih =>
    cases n with
    | zero =>
      obtain rfl : c = a := by simpa using h
      rw [List.set_cons_zero,List.filterMap_cons,List.filterMap_cons,hf]
    | succ n =>
      rw [List.set_cons_succ,List.filterMap_cons,List.filterMap_cons,ih (by simpa using h)]

theorem filterMap_set_new {f : α → Option β} {r : β} (h : entries[n]? = some a) (ha : f a = none)
    (hb : f b = some r) : ((entries.set n b).filterMap f).Perm (r::entries.filterMap f) := by
  induction entries generalizing n with
  | nil => simp at h
  | cons c rest ih =>
    cases n with
    | zero =>
      obtain rfl : c = a := by simpa using h
      rw [List.set_cons_zero,List.filterMap_cons_some hb,List.filterMap_cons_none ha]
    | succ n =>
      have hrest := ih (n := n) (by simpa using h)
      rw [List.set_cons_succ]
      cases hc : f c with
      | none =>
        rw [List.filterMap_cons_none hc,List.filterMap_cons_none hc]
        exact hrest
      | some x =>
        rw [List.filterMap_cons_some hc,List.filterMap_cons_some hc]
        exact (hrest.cons x).trans (.swap r x _)

theorem filterMap_set_key {κ : Type*} [DecidableEq κ] {f : α → Option β} {key : β → κ} {r : β}
    (g : β → β) (hn : ((entries.filterMap f).map key).Nodup) (h : entries[n]? = some a)
    (ha : f a = some r) (hb : f b = some (g r)) :
    (entries.set n b).filterMap f = updateWhere (key · == key r) g (entries.filterMap f) := by
  induction entries generalizing n with
  | nil => simp at h
  | cons c rest ih =>
    cases n with
    | zero =>
      obtain rfl : c = a := by simpa using h
      rw [List.filterMap_cons_some ha,List.map_cons,List.nodup_cons] at hn
      have hother : ∀ x ∈ rest.filterMap f, (key x == key r) = false := by
        intro x hx
        rw [beq_eq_false_iff_ne]
        exact fun heq => hn.1 (heq ▸ List.mem_map_of_mem hx)
      have hrest := updateWhere_of_forall_not g hother
      rw [updateWhere] at hrest
      rw [List.set_cons_zero,List.filterMap_cons_some hb,List.filterMap_cons_some ha,updateWhere,
        List.map_cons,hrest]
      simp
    | succ n =>
      have hat : rest[n]? = some a := by simpa using h
      rw [List.set_cons_succ]
      cases hc : f c with
      | none =>
        rw [List.filterMap_cons_none hc] at hn ⊢
        rw [List.filterMap_cons_none hc]
        exact ih hn hat
      | some x =>
        rw [List.filterMap_cons_some hc,List.map_cons,List.nodup_cons] at hn
        have hmem : r ∈ rest.filterMap f :=
          List.mem_filterMap.mpr ⟨a,List.mem_of_getElem? hat,ha⟩
        have hne : key x ≠ key r := fun heq => hn.1 (heq ▸ List.mem_map_of_mem hmem)
        have hrest := ih hn.2 hat
        rw [updateWhere] at hrest
        rw [List.filterMap_cons_some hc,List.filterMap_cons_some hc,updateWhere,List.map_cons,hrest]
        simp [hne]

end SystemsLab
