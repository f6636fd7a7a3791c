import Mathlib.Data.List.Nodup
import Mathlib.Logic.Function.Basic

/-!
# Ids from a sequence

A sequence gives out each id once. By now the id belongs to a row, or to a transaction that is
still open, or to nobody.
-/

namespace SystemsLab

variable {κ γ : Type*}

/-- `ids` are those of the rows, `held` those of the open transactions. -/
structure Issued (first : Nat) (ids : List Nat) (held : κ → Option Nat) (seq : Nat) : Prop where
  begun : first ≤ seq
  nodup : ids.Nodup
  least : ∀ id ∈ ids, first ≤ id
  heldLeast : ∀ k id, held k = some id → first ≤ id
  below : ∀ id ∈ ids, id < seq
  heldBelow : ∀ k id, held k = some id → id < seq
  fresh : ∀ k id, held k = some id → id ∉ ids
  exclusive : ∀ k m id, held k = some id → held m = some id → k = m

namespace Issued

variable {first : Nat} {ids : List Nat} {held held' : κ → Option Nat} {seq : Nat} {k : κ} {id : Nat}

theorem start (first : Nat) : Issued first [] (fun _ : κ => none) first :=
  ⟨Nat.le_refl _,.nil,nofun,nofun,nofun,nofun,nofun,nofun⟩

theorem skip (h : Issued first ids held seq) {seq' : Nat} (hseq : seq ≤ seq') :
    Issued first ids held seq' where
  begun := Nat.le_trans h.begun hseq
  nodup := h.nodup
  least := h.least
  heldLeast := h.heldLeast
  below i hi := Nat.lt_of_lt_of_le (h.below i hi) hseq
  heldBelow k i hk := Nat.lt_of_lt_of_le (h.heldBelow k i hk) hseq
  fresh := h.fresh
  exclusive := h.exclusive

theorem seq_notMem (h : Issued first ids held seq) : seq ∉ ids :=
  fun hmem => Nat.lt_irrefl _ (h.below seq hmem)

theorem release (h : Issued first ids held seq)
    (hheld : ∀ k id, held' k = some id → held k = some id) : Issued first ids held' seq where
  begun := h.begun
  nodup := h.nodup
  least := h.least
  heldLeast k i hk := h.heldLeast k i (hheld k i hk)
  below := h.below
  heldBelow k i hk := h.heldBelow k i (hheld k i hk)
  fresh k i hk := h.fresh k i (hheld k i hk)
  exclusive k m i hk hm := h.exclusive k m i (hheld k i hk) (hheld m i hm)

theorem insert (h : Issued first ids held seq) : Issued first (ids ++ [seq]) held (seq + 1) where
  begun := Nat.le_succ_of_le h.begun
  least i hi := by
    rcases List.mem_append.mp hi with hi | hi
    · exact h.least i hi
    · rw [List.mem_singleton.mp hi]
      exact h.begun
  heldLeast := h.heldLeast
  nodup := List.nodup_append'.mpr ⟨h.nodup,List.nodup_singleton _,by simpa using h.seq_notMem⟩
  below i hi := by
    rcases List.mem_append.mp hi with hi | hi
    · exact Nat.lt_succ_of_lt (h.below i hi)
    · rw [List.mem_singleton.mp hi]
      exact Nat.lt_succ_self _
  heldBelow k i hk := Nat.lt_succ_of_lt (h.heldBelow k i hk)
  fresh k i hk hi := by
    rcases List.mem_append.mp hi with hi | hi
    · exact h.fresh k i hk hi
    · rw [List.mem_singleton.mp hi] at hk
      exact Nat.lt_irrefl _ (h.heldBelow k seq hk)
  exclusive := h.exclusive

theorem reserve (h : Issued first ids held seq)
    (hheld : ∀ m id, held' m = some id → m = k ∧ id = seq ∨ held m = some id) :
    Issued first ids held' (seq + 1) where
  begun := Nat.le_succ_of_le h.begun
  nodup := h.nodup
  least := h.least
  heldLeast m i hm := by
    rcases hheld m i hm with ⟨_,rfl⟩ | hm
    · exact h.begun
    · exact h.heldLeast m i hm
  below i hi := Nat.lt_succ_of_lt (h.below i hi)
  heldBelow m i hm := by
    rcases hheld m i hm with ⟨_,rfl⟩ | hm
    · exact Nat.lt_succ_self _
    · exact Nat.lt_succ_of_lt (h.heldBelow m i hm)
  fresh m i hm hi := by
    rcases hheld m i hm with ⟨_,rfl⟩ | hm
    · exact h.seq_notMem hi
    · exact h.fresh m i hm hi
  exclusive m n i hm hn := by
    rcases hheld m i hm with ⟨rfl,rfl⟩ | hm
    · rcases hheld n i hn with ⟨rfl,_⟩ | hn
      · rfl
      · exact absurd (h.heldBelow n i hn) (Nat.lt_irrefl _)
    · rcases hheld n i hn with ⟨_,rfl⟩ | hn
      · exact absurd (h.heldBelow m i hm) (Nat.lt_irrefl _)
      · exact h.exclusive m n i hm hn

theorem settle (h : Issued first ids held seq) (hk : held k = some id)
    (hheld : ∀ m i, held' m = some i → m ≠ k ∧ held m = some i) :
    Issued first (ids ++ [id]) held' seq where
  begun := h.begun
  least i hi := by
    rcases List.mem_append.mp hi with hi | hi
    · exact h.least i hi
    · rw [List.mem_singleton.mp hi]
      exact h.heldLeast k id hk
  heldLeast m i hm := h.heldLeast m i (hheld m i hm).2
  nodup := List.nodup_append'.mpr ⟨h.nodup,List.nodup_singleton _,by simpa using h.fresh k id hk⟩
  below i hi := by
    rcases List.mem_append.mp hi with hi | hi
    · exact h.below i hi
    · rw [List.mem_singleton.mp hi]
      exact h.heldBelow k id hk
  heldBelow m i hm := h.heldBelow m i (hheld m i hm).2
  fresh m i hm hi := by
    obtain ⟨hne,hm⟩ := hheld m i hm
    rcases List.mem_append.mp hi with hi | hi
    · exact h.fresh m i hm hi
    · rw [List.mem_singleton.mp hi] at hm
      exact hne (h.exclusive m k id hm hk)
  exclusive m n i hm hn := h.exclusive m n i (hheld m i hm).2 (hheld n i hn).2

end Issued

/-- What one party has, read off its state. -/
def heldBy (f : γ → Option Nat) (call : κ → Option γ) (k : κ) : Option Nat := (call k).bind f

variable [DecidableEq κ] {f : γ → Option Nat} {call : κ → Option γ} {k m : κ} {c : γ} {id : Nat}

omit [DecidableEq κ] in
theorem heldBy_eq (hc : call k = some c) : heldBy f call k = f c := by
  rw [heldBy,hc]
  rfl

theorem heldBy_update (h : heldBy f (Function.update call k (some c)) m = some id) :
    m = k ∧ f c = some id ∨ m ≠ k ∧ heldBy f call m = some id := by
  by_cases hm : m = k
  · subst hm
    rw [heldBy,Function.update_self] at h
    exact .inl ⟨rfl,h⟩
  · rw [heldBy,Function.update_of_ne hm] at h
    exact .inr ⟨hm,h⟩

end SystemsLab
