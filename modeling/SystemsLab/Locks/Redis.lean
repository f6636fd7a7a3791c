import Mathlib.Logic.Function.Basic
import Mathlib.Data.String.Basic

/-!
# The Redis commands the labs use

One server executes commands one after another. A key whose expiry has passed is absent for
every command, whether or not the server has reclaimed it.
-/

namespace SystemsLab.Locks

inductive RedisValue
  | text (value : String)
  | counter (value : Int)
  deriving DecidableEq, Repr

structure RedisEntry where
  value : RedisValue
  expiresAt : Option Int
  deriving DecidableEq, Repr

abbrev Keyspace := String → Option RedisEntry

def RedisEntry.expired (e : RedisEntry) (now : Int) : Bool :=
  match e.expiresAt with
  | none => false
  | some t => t ≤ now

/-- The entry a command sees. -/
def Keyspace.lookup (db : Keyspace) (now : Int) (key : String) : Option RedisEntry :=
  (db key).filter fun e => !e.expired now

/-- `SET key value PX ttlMs NX`: the new keyspace and whether the reply is `OK`. -/
def Keyspace.setNxPx (db : Keyspace) (now : Int) (key value : String) (ttlMs : Int) :
    Except String (Keyspace × Bool) :=
  if ttlMs ≤ 0 then .error "ERR invalid expire time in 'set' command"
  else match db.lookup now key with
    | some _ => .ok (db,false)
    | none => .ok (Function.update db key (some ⟨.text value,some (now + ttlMs)⟩),true)

/-- `SET key value EX ttlSeconds`. -/
def Keyspace.setEx (db : Keyspace) (now : Int) (key value : String) (ttlSeconds : Int) :
    Except String Keyspace :=
  if ttlSeconds ≤ 0 then .error "ERR invalid expire time in 'set' command"
  else .ok (Function.update db key (some ⟨.text value,some (now + ttlSeconds * 1000)⟩))

/-- `INCR key`. An absent key counts from zero and never expires. -/
def Keyspace.incr (db : Keyspace) (now : Int) (key : String) : Except String (Keyspace × Int) :=
  match db.lookup now key with
  | none => .ok (Function.update db key (some ⟨.counter 1,none⟩),1)
  | some ⟨.counter n,expiresAt⟩ =>
    .ok (Function.update db key (some ⟨.counter (n + 1),expiresAt⟩),n + 1)
  | some ⟨.text _,_⟩ => .error "ERR value is not an integer or out of range"

theorem Keyspace.lookup_eq_some {db : Keyspace} {now : Int} {key : String} {e : RedisEntry} :
    db.lookup now key = some e ↔ db key = some e ∧ e.expired now = false := by
  rw [Keyspace.lookup,Option.filter_eq_some_iff,Bool.not_eq_true']

theorem Keyspace.lookup_update {db : Keyspace} {now : Int} {key : String} (e : RedisEntry)
    (he : e.expired now = false) :
    Keyspace.lookup (Function.update db key (some e)) now key = some e :=
  lookup_eq_some.mpr ⟨Function.update_self _ _ _,he⟩

theorem expired_text {t : String} {now s : Int} :
    RedisEntry.expired ⟨.text t,some s⟩ now = false ↔ now < s := by
  simp [RedisEntry.expired]

theorem RedisEntry.expired_of_le {e : RedisEntry} {now later : Int} (hle : now ≤ later)
    (h : e.expired later = false) : e.expired now = false := by
  unfold RedisEntry.expired at h ⊢
  split
  · rfl
  · rename_i s hs
    rw [hs] at h
    simp only [decide_eq_false_iff_not] at h ⊢
    omega

theorem Keyspace.lookup_of_ne (db : Keyspace) (now : Int) {key other : String}
    (e : Option RedisEntry) (hne : other ≠ key) :
    Keyspace.lookup (Function.update db key e) now other = db.lookup now other := by
  rw [lookup,lookup,Function.update_of_ne hne]

theorem Keyspace.lookup_none_of_le {db : Keyspace} {now later : Int} {key : String}
    (hle : now ≤ later) (h : db.lookup now key = none) : db.lookup later key = none := by
  rw [Option.eq_none_iff_forall_ne_some] at h ⊢
  intro e he
  obtain ⟨hdb,hlive⟩ := lookup_eq_some.mp he
  exact h e (lookup_eq_some.mpr ⟨hdb,RedisEntry.expired_of_le hle hlive⟩)

theorem Keyspace.lookup_persistent {db : Keyspace} {now : Int} {key : String}
    (h : ∀ e, db key = some e → e.expiresAt = none) : db.lookup now key = db key := by
  unfold Keyspace.lookup
  cases hk : db key with
  | none => rfl
  | some e => simp [RedisEntry.expired,h e hk]

/-- A granted `SET … NX` found no live entry. -/
theorem Keyspace.setNxPx_granted {db db' : Keyspace} {now ttlMs : Int} {key value : String}
    (h : db.setNxPx now key value ttlMs = .ok (db',true)) :
    db.lookup now key = none ∧
      db' = Function.update db key (some ⟨.text value,some (now + ttlMs)⟩) := by
  unfold Keyspace.setNxPx at h
  split at h
  · cases h
  · split at h
    · cases h
    · rename_i hl
      cases h
      exact ⟨hl,rfl⟩

theorem Keyspace.setNxPx_refused {db db' : Keyspace} {now ttlMs : Int} {key value : String}
    (h : db.setNxPx now key value ttlMs = .ok (db',false)) : db' = db := by
  unfold Keyspace.setNxPx at h
  split at h
  · cases h
  · split at h <;> cases h
    rfl

theorem Keyspace.incr_persistent {db db' : Keyspace} {now n : Int} {key : String}
    (hdb : ∀ e, db key = some e → e.expiresAt = none) (h : db.incr now key = .ok (db',n)) :
    db' = Function.update db key (some ⟨.counter n,none⟩) ∧
      ∀ k e, db key = some ⟨.counter k,e⟩ → k < n := by
  unfold Keyspace.incr at h
  rw [Keyspace.lookup_persistent hdb] at h
  cases hk : db key with
  | none =>
    rw [hk] at h
    cases h
    exact ⟨rfl,nofun⟩
  | some e =>
    obtain ⟨v,expiresAt⟩ := e
    obtain rfl : expiresAt = none := hdb _ hk
    rw [hk] at h
    cases v with
    | text s => cases h
    | counter k =>
      cases h
      refine ⟨rfl,fun k' e he => ?_⟩
      cases he
      omega

theorem Keyspace.incr_of_ne {db db' : Keyspace} {now n : Int} {key other : String}
    (h : db.incr now key = .ok (db',n)) (hne : other ≠ key) : db' other = db other := by
  unfold Keyspace.incr at h
  split at h <;> cases h <;> exact Function.update_of_ne hne _ _

end SystemsLab.Locks
