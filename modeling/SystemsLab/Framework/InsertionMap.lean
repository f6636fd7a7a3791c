import SystemsLab.Framework.Table

/-!
# Maps in the order of insertion

A key keeps its place when its value is set again; a new key comes last. An injective renaming of
the keys does not show.
-/

namespace SystemsLab

variable {κ κ' ν : Type*}

abbrev InsertionMap (κ ν : Type*) := List (κ × ν)

namespace InsertionMap

def keys (m : InsertionMap κ ν) : List κ := m.map Prod.fst

/-- Renames the keys. -/
def rename (f : κ → κ') (m : InsertionMap κ ν) : InsertionMap κ' ν :=
  m.map fun entry => (f entry.1,entry.2)

theorem rename_keys (f : κ → κ') (m : InsertionMap κ ν) : (rename f m).keys = m.keys.map f := by
  simp [rename,keys]

def withValue (v : ν) (entry : κ × ν) : κ × ν := (entry.1,v)

@[simp] theorem withValue_fst (v : ν) (entry : κ × ν) : (withValue v entry).1 = entry.1 := rfl

variable [DecidableEq κ] [DecidableEq κ']

def get (m : InsertionMap κ ν) (k : κ) : Option ν := (rowAt Prod.fst m k).map Prod.snd

def set (m : InsertionMap κ ν) (k : κ) (v : ν) : InsertionMap κ ν :=
  if k ∈ m.keys then updateWhere (fun entry => entry.1 = k) (withValue v) m else m ++ [(k,v)]

variable {m : InsertionMap κ ν} {k i : κ} {v : ν}

theorem get_none : get m k = none ↔ k ∉ m.keys := by
  rw [get,Option.map_eq_none_iff,rowAt,List.find?_eq_none]
  constructor
  · intro h hmem
    obtain ⟨entry,hentry,hkey⟩ := List.mem_map.mp hmem
    exact h entry hentry (decide_eq_true hkey)
  · intro h entry hentry hkey
    exact h (of_decide_eq_true hkey ▸ List.mem_map_of_mem hentry)

theorem mem_of_get (h : get m k = some v) : (k,v) ∈ m := by
  obtain ⟨entry,hentry,rfl⟩ := Option.map_eq_some_iff.mp h
  obtain ⟨hmem,rfl⟩ := rowAt_some hentry
  exact hmem

theorem keys_set (m : InsertionMap κ ν) (k : κ) (v : ν) :
    (set m k v).keys = if k ∈ m.keys then m.keys else m.keys ++ [k] := by
  rw [set]
  split
  · exact map_updateWhere Prod.fst (withValue_fst v) m
  · simp [keys]

theorem mem_keys_set : i ∈ (set m k v).keys ↔ i ∈ m.keys ∨ i = k := by
  rw [keys_set]
  split
  · rename_i hmem
    exact ⟨.inl,fun h => h.elim id fun heq => heq ▸ hmem⟩
  · rw [List.mem_append,List.mem_singleton]

theorem mem_set {entry : κ × ν} (h : entry ∈ set m k v) : entry ∈ m ∨ entry = (k,v) := by
  rw [set] at h
  split at h
  · obtain ⟨old,hold,rfl⟩ := mem_updateWhere.mp h
    by_cases hk : old.1 = k
    · rw [if_pos (decide_eq_true hk)]
      exact .inr (by rw [withValue,hk])
    · rw [if_neg (by simp [hk])]
      exact .inl hold
  · simpa using h

theorem keys_set_nodup (hn : m.keys.Nodup) (k : κ) (v : ν) : (set m k v).keys.Nodup := by
  rw [keys_set]
  split
  · exact hn
  · rename_i hnew
    rw [List.nodup_append]
    refine ⟨hn,List.nodup_singleton _,fun a ha b hb hab => ?_⟩
    rw [List.mem_singleton.mp hb] at hab
    exact hnew (hab ▸ ha)

theorem get_set (m : InsertionMap κ ν) (k i : κ) (v : ν) :
    get (set m k v) i = if i = k then some v else get m i := by
  rw [set]
  split
  · rename_i hmem
    rw [get,rowAt_updateWhere (withValue_fst v),Option.map_map]
    cases hrow : rowAt Prod.fst m i with
    | none =>
      have hne : i ≠ k := by
        rintro rfl
        exact get_none.mp (by rw [get,hrow,Option.map_none]) hmem
      simp [get,hrow,hne]
    | some entry =>
      have hentry := (rowAt_some hrow).2
      by_cases hi : i = k <;> simp [get,hrow,hentry,hi,withValue]
  · rename_i hnew
    by_cases hi : i = k
    · subst hi
      have hnone : rowAt Prod.fst m i = none := by
        have hget := get_none.mpr hnew
        rwa [get,Option.map_eq_none_iff] at hget
      rw [rowAt] at hnone
      simp [get,rowAt,List.find?_append,hnone]
    · rw [if_neg hi,get,get,rowAt,rowAt,List.find?_append]
      simp [Ne.symm hi]

/-- A renaming that is injective on the keys in question commutes with looking up. -/
theorem get_rename {f : κ → κ'} (hf : ∀ j ∈ m.keys, f j = f k → j = k) :
    get (rename f m) (f k) = get m k := by
  induction m with
  | nil => rfl
  | cons entry m ih =>
    have htail : get (rename f m) (f k) = get m k :=
      ih fun j hj => hf j (List.mem_cons_of_mem _ hj)
    by_cases hk : entry.1 = k
    · simp [get,rowAt,rename,hk]
    · have hfk : f entry.1 ≠ f k := fun heq => hk (hf _ List.mem_cons_self heq)
      have hold : get (entry::m) k = get m k := by simp [get,rowAt,hk]
      have hnew : get (rename f (entry::m)) (f k) = get (rename f m) (f k) := by
        simp [get,rowAt,rename,hfk]
      rw [hold,hnew,htail]

theorem set_rename {f : κ → κ'} (hf : ∀ j ∈ m.keys, f j = f k → j = k) (v : ν) :
    set (rename f m) (f k) v = rename f (set m k v) := by
  have hmem : f k ∈ (rename f m).keys ↔ k ∈ m.keys := by
    rw [rename_keys]
    constructor
    · intro h
      obtain ⟨j,hj,heq⟩ := List.mem_map.mp h
      exact hf j hj heq ▸ hj
    · exact fun h => List.mem_map_of_mem h
  rw [set,set]
  by_cases hk : k ∈ m.keys
  · rw [if_pos hk,if_pos (hmem.mpr hk)]
    simp only [rename,updateWhere,List.map_map]
    apply List.map_congr_left
    intro entry hentry
    have hkey : f entry.1 = f k ↔ entry.1 = k :=
      ⟨hf entry.1 (List.mem_map_of_mem hentry),fun heq => by rw [heq]⟩
    by_cases heq : entry.1 = k
    · simp [heq,withValue]
    · have hne : f entry.1 ≠ f k := fun h => heq (hkey.mp h)
      simp [heq,hne]
  · rw [if_neg hk,if_neg fun h => hk (hmem.mp h)]
    simp [rename]

end InsertionMap

end SystemsLab
