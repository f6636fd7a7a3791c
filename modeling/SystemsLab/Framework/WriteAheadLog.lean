import Mathlib.Algebra.BigOperators.Group.List.Basic
import Mathlib.Algebra.GroupWithZero.Nat
import Mathlib.Data.PNat.Defs

/-!
# Write-ahead logs

A log is a list of records, oldest first, that only grows at its end. A position counts bytes, so
that the positions of two prefixes are ordered as the prefixes are. Replaying a prefix over a table
leaves in each row the last image that the prefix holds for it.
-/

namespace SystemsLab

/-- A record and the row images it makes visible, none of them unless it commits a transaction. An
image `none` is a deleted row. -/
structure LogRecord (κ β : Type*) where
  bytes : ℕ+
  writes : List (κ × Option β)

variable {κ β : Type*} {log : List (LogRecord κ β)} {start m n : Nat}

/-- The position after the first `n` records of a log that begins at `start`. -/
def logPosition (start : Nat) (log : List (LogRecord κ β)) (n : Nat) : Nat :=
  start + ((log.take n).map fun record => (record.bytes : Nat)).sum

theorem logPosition_succ (hn : n < log.length) :
    logPosition start log (n+1) = logPosition start log n + log[n].bytes := by
  unfold logPosition
  rw [List.take_succ_eq_append_getElem hn,List.map_append,List.sum_append,Nat.add_assoc]
  rfl

theorem logPosition_append (more : List (LogRecord κ β)) (hn : n ≤ log.length) :
    logPosition start (log ++ more) n = logPosition start log n := by
  unfold logPosition
  rw [List.take_append_of_le_length hn]

theorem logPosition_lt (hmn : m < n) (hn : n ≤ log.length) :
    logPosition start log m < logPosition start log n := by
  induction n with
  | zero => exact absurd hmn (Nat.not_lt_zero m)
  | succ n ih =>
    rw [logPosition_succ hn]
    have hbytes : 0 < (log[n].bytes : Nat) := log[n].bytes.pos
    rcases Nat.lt_succ_iff_lt_or_eq.mp hmn with hlt | rfl
    · have := ih hlt (Nat.le_of_succ_le hn)
      omega
    · omega

theorem logPosition_mono (hmn : m ≤ n) (hn : n ≤ log.length) :
    logPosition start log m ≤ logPosition start log n := by
  rcases Nat.lt_or_eq_of_le hmn with hlt | rfl
  · exact (logPosition_lt hlt hn).le
  · exact Nat.le_refl _

/-- A prefix that reaches at least as far has at least as many records. -/
theorem le_of_logPosition_le (hn : n ≤ log.length)
    (h : logPosition start log n ≤ logPosition start log m) : n ≤ m := by
  by_contra hmn
  have hlt : logPosition start log m < logPosition start log n :=
    logPosition_lt (Nat.lt_of_not_le hmn) hn
  exact absurd hlt (Nat.not_lt_of_le h)

section Replay

variable [DecidableEq κ] {k : κ} {table : κ → Option β}

/-- The image a record leaves in a row, if it writes it. -/
def LogRecord.image (record : LogRecord κ β) (k : κ) : Option (Option β) :=
  record.writes.reverse.lookup k

def LogRecord.applyTo (table : κ → Option β) (record : LogRecord κ β) : κ → Option β :=
  fun k => (record.image k).getD (table k)

def replayLog (table : κ → Option β) (log : List (LogRecord κ β)) : κ → Option β :=
  log.foldl LogRecord.applyTo table

theorem replayLog_take_succ (hn : n < log.length) :
    replayLog table (log.take (n+1)) k =
      (log[n].image k).getD (replayLog table (log.take n) k) := by
  unfold replayLog
  rw [List.take_succ_eq_append_getElem hn,List.foldl_append]
  rfl

/-- Once record `i` has been replayed, a row that it writes holds its image or a later one. -/
theorem replayLog_of_write (table : κ → Option β) {i : Nat} {image : Option β}
    (hn : n ≤ log.length) (hi : i < n)
    (hwrite : (log[i]?).bind (LogRecord.image · k) = some image) :
    ∃ j, i ≤ j ∧ j < n ∧
      (log[j]?).bind (LogRecord.image · k) = some (replayLog table (log.take n) k) := by
  induction n with
  | zero => exact absurd hi (Nat.not_lt_zero i)
  | succ n ih =>
    rw [replayLog_take_succ hn]
    have hlast : log[n]? = some log[n] := List.getElem?_eq_getElem hn
    cases himage : log[n].image k with
    | some last =>
      refine ⟨n,Nat.lt_succ_iff.mp hi,Nat.lt_succ_self n,?_⟩
      rw [hlast,Option.bind_some,himage]
      rfl
    | none =>
      have hne : i ≠ n := by
        rintro rfl
        rw [hlast,Option.bind_some,himage] at hwrite
        cases hwrite
      have hin : i < n := Nat.lt_of_le_of_ne (Nat.lt_succ_iff.mp hi) hne
      obtain ⟨j,hij,hjn,hj⟩ := ih (Nat.le_of_succ_le hn) hin
      exact ⟨j,hij,Nat.lt_succ_of_lt hjn,hj⟩

end Replay

end SystemsLab
