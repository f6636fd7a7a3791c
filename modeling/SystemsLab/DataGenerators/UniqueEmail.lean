import Mathlib.Data.List.Induction
import SystemsLab.Framework.FreshIndex

/-!
# Unique emails

`toUniqueEmail` returns an email that no call has returned before: the one it is given, or that
one with the first free number in front of the `@`. Without an `@` the number ends up in front of
the last character, since `indexOf` yields `-1`.
-/

namespace SystemsLab.DataGenerators

/-- A string by its UTF-16 code units. -/
abbrev JsString := List ℕ

/-- The code unit of `@`. -/
def atSign : ℕ := 64

def indexOf (s : JsString) (unit : ℕ) : ℤ :=
  match s.findIdx? (· == unit) with
  | some i => i
  | none => -1

/-- Where `slice` cuts: a negative index counts from the end. -/
def sliceIndex (s : JsString) (i : ℤ) : ℕ :=
  if i < 0 then (s.length + i).toNat else min i.toNat s.length

/-- The digits of a number, as a template literal writes them. -/
def digits (n : ℕ) : JsString := (Nat.toDigits 10 n).map Char.toNat

def candidate (baseEmail : JsString) (suffix : ℕ) : JsString :=
  let atIndex := indexOf baseEmail atSign
  let localPart := baseEmail.take (sliceIndex baseEmail atIndex)
  let domain := baseEmail.drop (sliceIndex baseEmail atIndex)
  localPart ++ digits suffix ++ domain

theorem digits_injective : Function.Injective digits := by
  intro m n h
  have hunits : Function.Injective Char.toNat := fun a b hab => Char.toNat_inj.mp hab
  exact toDigits_injective (List.map_injective_iff.mpr hunits h)

theorem candidate_injective (baseEmail : JsString) : Function.Injective (candidate baseEmail) := by
  intro m n h
  unfold candidate at h
  exact digits_injective (List.append_cancel_left (List.append_cancel_right h))

/-- The email, and the set with the email added. -/
def toUniqueEmail (baseEmail : JsString) (usedEmails : Finset JsString) :
    JsString × Finset JsString :=
  if baseEmail ∉ usedEmails then (baseEmail,insert baseEmail usedEmails)
  else
    let suffix := firstUnused usedEmails (candidate baseEmail) (candidate_injective baseEmail) 2
    (candidate baseEmail suffix,insert (candidate baseEmail suffix) usedEmails)

/-- One call after the other with the same set, which is empty at first. -/
def uniqueEmails (bases : List JsString) : List JsString × Finset JsString :=
  bases.foldl (fun result baseEmail =>
    let call := toUniqueEmail baseEmail result.2
    (result.1 ++ [call.1],call.2)) ([],∅)

private theorem toUniqueEmail_base {baseEmail : JsString} {usedEmails : Finset JsString}
    (h : baseEmail ∉ usedEmails) :
    toUniqueEmail baseEmail usedEmails = (baseEmail,insert baseEmail usedEmails) := by
  unfold toUniqueEmail
  rw [if_pos h]

private theorem toUniqueEmail_fresh (baseEmail : JsString) (usedEmails : Finset JsString) :
    (toUniqueEmail baseEmail usedEmails).1 ∉ usedEmails ∧
      (toUniqueEmail baseEmail usedEmails).2 =
        insert (toUniqueEmail baseEmail usedEmails).1 usedEmails := by
  by_cases hused : baseEmail ∈ usedEmails
  · unfold toUniqueEmail
    rw [if_neg (not_not.mpr hused)]
    exact ⟨firstUnused_notMem usedEmails (candidate baseEmail) _ 2,rfl⟩
  · rw [toUniqueEmail_base hused]
    exact ⟨hused,rfl⟩

private theorem uniqueEmails_snoc (bases : List JsString) (baseEmail : JsString) :
    uniqueEmails (bases ++ [baseEmail]) =
      ((uniqueEmails bases).1 ++ [(toUniqueEmail baseEmail (uniqueEmails bases).2).1],
        (toUniqueEmail baseEmail (uniqueEmails bases).2).2) := by
  unfold uniqueEmails
  rw [List.foldl_append]
  rfl

/-- After any calls the emails returned are distinct, the set holds just these, and a base that
it does not hold is returned unchanged by the next call. -/
theorem uniqueEmails_spec (bases : List JsString) :
    (uniqueEmails bases).1.length = bases.length ∧ (uniqueEmails bases).1.Nodup ∧
      (∀ email, email ∈ (uniqueEmails bases).2 ↔ email ∈ (uniqueEmails bases).1) ∧
      ∀ baseEmail, baseEmail ∉ (uniqueEmails bases).2 →
        (toUniqueEmail baseEmail (uniqueEmails bases).2).1 = baseEmail := by
  have hlast : ∀ baseEmail, baseEmail ∉ (uniqueEmails bases).2 →
      (toUniqueEmail baseEmail (uniqueEmails bases).2).1 = baseEmail := by
    intro baseEmail hunused
    rw [toUniqueEmail_base hunused]
  suffices h : (uniqueEmails bases).1.length = bases.length ∧ (uniqueEmails bases).1.Nodup ∧
      ∀ email, email ∈ (uniqueEmails bases).2 ↔ email ∈ (uniqueEmails bases).1 from
    ⟨h.1,h.2.1,h.2.2,hlast⟩
  clear hlast
  induction bases using List.reverseRecOn with
  | nil => simp [uniqueEmails]
  | append_singleton bases baseEmail ih =>
    obtain ⟨hlength,hnodup,hset⟩ := ih
    obtain ⟨hfresh,hadded⟩ := toUniqueEmail_fresh baseEmail (uniqueEmails bases).2
    rw [uniqueEmails_snoc]
    refine ⟨?_,?_,fun email => ?_⟩
    · simp [hlength]
    · rw [List.nodup_append]
      refine ⟨hnodup,List.nodup_singleton _,?_⟩
      rintro email hemail _ hnew rfl
      rw [List.mem_singleton] at hnew
      rw [hset,← hnew] at hfresh
      exact hfresh hemail
    · rw [hadded,Finset.mem_insert,hset,List.mem_append,List.mem_singleton]
      exact or_comm

/-- The code units of an ASCII string. -/
def ascii (s : String) : JsString := s.toList.map Char.toNat

example : (candidate (ascii "a@x") 2,candidate (ascii "root") 2) =
    (ascii "a2@x",ascii "roo2t") := by
  decide +kernel

end SystemsLab.DataGenerators
