import SystemsLab.ConditionalWrites.Documents
import Mathlib.Data.List.Count

/-!
# Lost updates

A run loses no edit exactly when every save that goes through was computed from the body it
replaces. With saves that are conditional on the version that is always so: whoever is refused has
been overtaken by somebody else's save.
-/

namespace SystemsLab.ConditionalWrites

variable {w w' : DocumentWorld} {e : DocumentEvent} {row read own : DocumentRow} {user : Nat}
  {marker body : String} {additions more : List (Nat × String)}

private theorem length_addition_pos (marker : String) : 0 < (addition marker).length := by
  rw [addition,String.length_append]
  exact Nat.add_pos_left (by decide) _

theorem applied_append (body : String) (additions more : List (Nat × String)) :
    applied body (additions ++ more) = applied (applied body additions) more :=
  List.foldl_append

theorem applied_concat (body : String) (additions : List (Nat × String)) (user : Nat)
    (marker : String) :
    applied body (additions ++ [(user,marker)]) = applied body additions ++ addition marker :=
  applied_append _ _ _

private theorem length_applied (body : String) (additions : List (Nat × String)) :
    (applied body additions).length =
      body.length + (additions.map fun edit => (addition edit.2).length).sum := by
  induction additions generalizing body with
  | nil => rfl
  | cons edit additions ih =>
    rw [applied,List.foldl_cons,List.map_cons,List.sum_cons]
    refine (ih (body ++ addition edit.2)).trans ?_
    rw [String.length_append]
    omega

private theorem length_lt_applied {body : String} {additions : List (Nat × String)}
    (h : additions ≠ []) :
    body.length < (applied body additions).length := by
  obtain ⟨edit,rest,rfl⟩ := List.exists_cons_of_ne_nil h
  have hpos := length_addition_pos edit.2
  rw [length_applied,List.map_cons,List.sum_cons]
  omega

theorem DocumentWorld.forget_reading {other : Nat}
    (h : (w.forget user).reading other = some read) : w.reading other = some read := by
  change Function.update w.reading user none other = some read at h
  by_cases hother : other = user
  · rw [hother,Function.update_self] at h
    cases h
  · rwa [Function.update_of_ne hother] at h

/-- A save that goes through was computed from the body it replaces. -/
def FromCurrent (w : DocumentWorld) : DocumentEvent → Prop
  | .update user _ => ∀ read ∈ w.reading user, read.body = w.current.body
  | .updateIfVersion user _ => ∀ read ∈ w.reading user, w.current.version = read.version →
      w.current.inRange → read.body = w.current.body
  | _ => True

instance (w : DocumentWorld) (e : DocumentEvent) : Decidable (FromCurrent w e) :=
  match e with
  | .update user _ => inferInstanceAs (Decidable (∀ read ∈ w.reading user,
      read.body = w.current.body))
  | .updateIfVersion user _ => inferInstanceAs (Decidable (∀ read ∈ w.reading user,
      w.current.version = read.version → w.current.inRange →
      read.body = w.current.body))
  | .readDocument _ | .publish _ | .selectForUpdate _ | .append _ _ | .commit _ | .disconnect _ =>
    .isTrue trivial

/-- What has been read is the present body or too short to hold all edits. -/
structure DocumentWorld.Bounded (row : DocumentRow) (w : DocumentWorld) : Prop where
  current : w.current.body.length ≤ (applied row.body w.additions).length
  reading : ∀ user read, w.reading user = some read → read.body = w.current.body ∨
    read.body.length < (applied row.body w.additions).length
  held : ∀ user own, w.row.held = some (user,own) →
    own.body = applied w.current.body (w.pending.map fun marker => (user,marker))

def DocumentWorld.Lossless (row : DocumentRow) (w : DocumentWorld) : Prop :=
  w.current.body = applied row.body w.additions

def DocumentWorld.Lossy (row : DocumentRow) (w : DocumentWorld) : Prop :=
  w.current.body.length < (applied row.body w.additions).length

namespace DocumentWorld.Bounded

theorem start (row : DocumentRow) : (start row).Bounded row where
  current := Nat.le_refl _
  reading := nofun
  held := nofun

private theorem length_read_le (h : w.Bounded row) (hread : w.reading user = some read) :
    read.body.length ≤ (applied row.body w.additions).length := by
  rcases h.reading user read hread with heq | hlt
  · rw [heq]
    exact h.current
  · exact Nat.le_of_lt hlt

private theorem saved (h : w.Bounded row) (hread : w.reading user = some read)
    (hbody : own.body = read.body ++ addition marker) : (w.saved user marker own).Bounded row := by
  have htotal : (applied row.body (w.additions ++ [(user,marker)])).length =
      (applied row.body w.additions).length + (addition marker).length := by
    rw [applied_concat,String.length_append]
  have hpos := length_addition_pos marker
  refine ⟨?_,fun other read' hread' => .inr ?_,nofun⟩
  · change own.body.length ≤ (applied row.body (w.additions ++ [(user,marker)])).length
    have hle := h.length_read_le hread
    rw [htotal,hbody,String.length_append]
    omega
  · change read'.body.length < (applied row.body (w.additions ++ [(user,marker)])).length
    have hle := h.length_read_le (forget_reading hread')
    rw [htotal]
    omega

/-- A save leaves all edits in the body if none was missing and the save was computed from it. -/
theorem lossless_saved (h : w.Lossless row) (hbody : own.body = read.body ++ addition marker)
    (hfresh : read.body = w.current.body) : (w.saved user marker own).Lossless row := by
  change own.body = applied row.body (w.additions ++ [(user,marker)])
  rw [applied_concat,hbody,hfresh]
  exact congrArg (· ++ addition marker) h

/-- A save leaves an edit out if one was missing before, or in what the save was computed from. -/
theorem lossy_saved (h : w.Bounded row) (hread : w.reading user = some read)
    (hbody : own.body = read.body ++ addition marker)
    (hstale : w.Lossy row ∨ read.body ≠ w.current.body) : (w.saved user marker own).Lossy row := by
  change own.body.length < (applied row.body (w.additions ++ [(user,marker)])).length
  have hlt : read.body.length < (applied row.body w.additions).length := by
    rcases h.reading user read hread with heq | hlt
    · rw [heq]
      exact hstale.resolve_right fun hne => hne heq
    · exact hlt
  rw [applied_concat,hbody,String.length_append,String.length_append]
  omega

private theorem rolledBack (h : w.Bounded row) : w.rolledBack.Bounded row where
  current := h.current
  reading := h.reading
  held := nofun

private theorem forget (h : w.Bounded row) (user : Nat) : (w.forget user).Bounded row where
  current := h.current
  reading other read hread := h.reading other read (forget_reading hread)
  held := h.held

theorem move (h : w.Bounded row) (hmove : DocumentMove w e w') : w'.Bounded row := by
  cases hmove with
  | read user =>
    refine ⟨h.current,fun other own hread => ?_,h.held⟩
    change Function.update w.reading user (some w.current) other = some own at hread
    rcases update_eq_some hread with ⟨_,rfl⟩ | ⟨_,hread⟩
    · exact .inl rfl
    · exact h.reading other own hread
  | updated user marker read _ hread => exact h.saved hread rfl
  | matched user marker read own _ hread _ hsave =>
    obtain ⟨_,rfl⟩ := DocumentRow.save_some hsave
    exact h.saved hread rfl
  | outOfRange user => exact h.forget user
  | refused user => exact ⟨h.current,(h.forget user).reading,h.held⟩
  | published user => exact ⟨h.current,h.reading,nofun⟩
  | unpublishable => exact h
  | locked user =>
    refine ⟨h.current,(h.forget user).reading,fun holder own hheld => ?_⟩
    cases hheld
    rfl
  | appended user marker own row' hheld hsave =>
    obtain ⟨_,rfl⟩ := DocumentRow.save_some hsave
    refine ⟨h.current,h.reading,fun holder own' hheld' => ?_⟩
    cases hheld'
    change own.body ++ addition marker =
      applied w.current.body ((w.pending ++ [marker]).map fun marker => (user,marker))
    rw [List.map_append,h.held user own hheld]
    exact (applied_concat _ _ user marker).symm
  | failed => exact h.rolledBack
  | committed user own hheld =>
    have hbody := h.held user own hheld
    have htotal := applied_append row.body w.additions (w.pending.map fun marker => (user,marker))
    refine ⟨?_,fun other own' hread => ?_,nofun⟩
    · change own.body.length ≤ (applied row.body (w.additions ++ _)).length
      rw [htotal,hbody,length_applied w.current.body,length_applied (applied _ _)]
      exact Nat.add_le_add_right h.current _
    · change own'.body = own.body ∨ own'.body.length < (applied row.body (w.additions ++ _)).length
      by_cases hpending : w.pending = []
      · rw [hbody,hpending,List.map_nil,List.append_nil]
        exact h.reading other own' hread
      · have hle := h.length_read_le hread
        have hmore : (w.pending.map fun marker => (user,marker)) ≠ [] := fun hnil =>
          hpending (List.map_eq_nil_iff.mp hnil)
        rw [htotal]
        exact .inr (Nat.lt_of_le_of_lt hle (length_lt_applied hmore))
  | disconnected user => exact h.forget user
  | rolledBack user => exact (h.forget user).rolledBack

/-- A step appends edits to the body, or saves what was made of something read before. -/
theorem body_move (h : w.Bounded row) (hmove : DocumentMove w e w') :
    (∃ more, w'.current.body = applied w.current.body more ∧ w'.additions = w.additions ++ more ∧
      FromCurrent w e) ∨
    ∃ user marker read own, w.reading user = some read ∧ own.body = read.body ++ addition marker ∧
      w' = w.saved user marker own ∧ (FromCurrent w e ↔ read.body = w.current.body) := by
  cases hmove with
  | read | published | unpublishable | locked | appended | failed | disconnected | rolledBack =>
    exact .inl ⟨[],rfl,(List.append_nil _).symm,trivial⟩
  | updated user marker read _ hread =>
    refine .inr ⟨user,marker,read,_,hread,rfl,rfl,?_⟩
    exact ⟨fun hok => hok read hread,fun heq => forall_of_eq_some hread heq⟩
  | matched user marker read own _ hread hversion hsave =>
    obtain ⟨hrange,rfl⟩ := DocumentRow.save_some hsave
    refine .inr ⟨user,marker,read,_,hread,rfl,rfl,?_⟩
    exact ⟨fun hok => hok read hread hversion hrange,
      fun heq => forall_of_eq_some hread fun _ _ => heq⟩
  | outOfRange user marker read hread hrange =>
    refine .inl ⟨[],rfl,(List.append_nil _).symm,forall_of_eq_some hread fun _ htrue => ?_⟩
    rw [hrange] at htrue
    cases htrue
  | refused user marker read hread hversion =>
    exact .inl ⟨[],rfl,(List.append_nil _).symm,
      forall_of_eq_some hread fun heq => absurd heq hversion⟩
  | committed user own hheld =>
    exact .inl ⟨_,h.held user own hheld,rfl,trivial⟩

end DocumentWorld.Bounded

theorem DocumentWorld.Lossless.move (h : w.Lossless row) (hbounded : w.Bounded row)
    (hok : FromCurrent w e) (hmove : DocumentMove w e w') : w'.Lossless row := by
  rcases hbounded.body_move hmove with ⟨more,hbody,hadditions,_⟩ | hsaved
  · rw [Lossless,hbody,hadditions,applied_append]
    exact congrArg (applied · more) h
  · obtain ⟨user,marker,read,own,_,hown,rfl,hfresh⟩ := hsaved
    exact Bounded.lossless_saved h hown (hfresh.mp hok)

theorem DocumentWorld.Lossy.move (h : w.Bounded row)
    (hstale : w.Lossy row ∨ ¬ FromCurrent w e) (hmove : DocumentMove w e w') : w'.Lossy row := by
  rcases h.body_move hmove with ⟨more,hbody,hadditions,hok⟩ | hsaved
  · have hlossy := hstale.resolve_right fun hnot => hnot hok
    rw [Lossy,hbody,hadditions,applied_append,length_applied w.current.body,
      length_applied (applied _ _)]
    exact Nat.add_lt_add_right hlossy _
  · obtain ⟨user,marker,read,own,hread,hown,rfl,hfresh⟩ := hsaved
    exact h.lossy_saved hread hown (hstale.imp_right fun hnot heq => hnot (hfresh.mpr heq))

/-- All edits that were committed are in the body, one after the other in the order of the commits,
exactly if no save went through that was computed from another body. -/
theorem documents_lossless_iff {row : DocumentRow} {w : DocumentWorld} {es : List DocumentEvent}
    (hrun : run documentStep (.start row) es = some w) :
    w.current.body = applied row.body w.additions ↔
      Along documentStep FromCurrent (.start row) es := by
  have hkeep : ∀ s e t, s.Bounded row ∧ s.Lossless row → FromCurrent s e →
      documentStep s e = some t → t.Bounded row ∧ t.Lossless row := by
    intro s e t hs hok hstep
    have hmove := documentStep_move hstep
    exact ⟨hs.1.move hmove,hs.2.move hs.1 hok hmove⟩
  have hbreak : ∀ s e t, s.Bounded row ∧ s.Lossless row → ¬ FromCurrent s e →
      documentStep s e = some t → t.Bounded row ∧ t.Lossy row := by
    intro s e t hs hnot hstep
    have hmove := documentStep_move hstep
    exact ⟨hs.1.move hmove,.move hs.1 (.inr hnot) hmove⟩
  have hstuck : ∀ s e t, s.Bounded row ∧ s.Lossy row → documentStep s e = some t →
      t.Bounded row ∧ t.Lossy row := by
    intro s e t hs hstep
    have hmove := documentStep_move hstep
    exact ⟨hs.1.move hmove,.move hs.1 (.inl hs.2) hmove⟩
  have hlossy : ∀ s : DocumentWorld, s.Bounded row ∧ s.Lossy row →
      s.current.body ≠ applied row.body s.additions :=
    fun s hs heq => Nat.ne_of_lt hs.2 (congrArg String.length heq)
  exact run_property_iff_along hkeep hbreak hstuck (fun _ hs => hs.2) hlossy ⟨.start row,rfl⟩ hrun

/-- Two users save what they made of the same body. -/
def twoPlainUpdates : List DocumentEvent :=
  [.readDocument 0,.readDocument 1,.update 0 "a",.update 1 "b"]

theorem documents_lossless_iff_two : ∃ w : DocumentWorld, w.additions = [(0,"a"),(1,"b")] ∧
    w.current.body ≠ applied "" w.additions := by
  have hend : (run documentStep (.start ⟨7,"",1,.draft⟩) twoPlainUpdates).any
      (·.additions == [(0,"a"),(1,"b")]) = true := by decide
  obtain ⟨w,hrun,hresult,_⟩ := exists_run_of_any hend
  have hstale : ¬ Along documentStep FromCurrent (.start ⟨7,"",1,.draft⟩) twoPlainUpdates := by decide
  exact ⟨w,eq_of_beq hresult,fun heq => hstale ((documents_lossless_iff hrun).mp heq)⟩

end SystemsLab.ConditionalWrites
