import SystemsLab.Partitioning.Partitions

/-! # What a reset of the partition layout restores -/

namespace SystemsLab.Partitioning

private theorem pad2_length {month : Nat} (hmonth : LayoutWorld.isMonth month = true) :
    (pad2 month).toList.length = 2 := by
  have hall : ∀ m ∈ List.range' 1 12, (pad2 m).toList.length = 2 := by decide +kernel
  simp only [LayoutWorld.isMonth,Bool.and_eq_true,decide_eq_true_eq] at hmonth
  exact hall month (List.mem_range'_1.mpr (by omega))

theorem pad2_injective {month month' : Nat} (hmonth : LayoutWorld.isMonth month = true)
    (hmonth' : LayoutWorld.isMonth month' = true) (h : pad2 month = pad2 month') :
    month = month' := by
  have hall : ∀ m ∈ List.range' 1 12, ∀ m' ∈ List.range' 1 12, pad2 m = pad2 m' → m = m' := by
    decide +kernel
  simp only [LayoutWorld.isMonth,Bool.and_eq_true,decide_eq_true_eq] at hmonth hmonth'
  exact hall month (List.mem_range'_1.mpr (by omega)) month' (List.mem_range'_1.mpr (by omega)) h

theorem monthPartitionName_injective {year month year' month' : Nat}
    (hmonth : LayoutWorld.isMonth month = true) (hmonth' : LayoutWorld.isMonth month' = true)
    (h : monthPartitionName year month = monthPartitionName year' month') :
    year = year' ∧ month = month' := by
  have hlists : ("metric_events_y" ++ toString year ++ "m" ++ pad2 month).toList =
      ("metric_events_y" ++ toString year' ++ "m" ++ pad2 month').toList := congrArg String.toList h
  simp only [String.toList_append] at hlists
  have hlength : (pad2 month).toList.length = (pad2 month').toList.length := by
    rw [pad2_length hmonth,pad2_length hmonth']
  obtain ⟨hyears,hmonths⟩ := List.append_inj' hlists hlength
  have hdigits := List.append_cancel_left (List.append_cancel_right hyears)
  have hyear : year = year' := by
    have hnumber := congrArg (fun digits => Nat.ofDigitChars 10 digits 0) hdigits
    simpa [Nat.toString_eq_ofList_toDigits] using hnumber
  exact ⟨hyear,pad2_injective hmonth hmonth' (String.toList_inj.mp hmonths)⟩

private theorem isMonth_of_mem {month : Nat} (h : month ∈ List.range' 1 12) :
    LayoutWorld.isMonth month = true := by
  have hrange := List.mem_range'_1.mp h
  simp only [LayoutWorld.isMonth,Bool.and_eq_true,decide_eq_true_eq]
  omega

private theorem mem_canonicalPartitions {p : MonthPartition} (hp : p ∈ canonicalPartitions) :
    ∃ month, LayoutWorld.isMonth month = true ∧ p = monthPartition PARTITIONED_YEAR month := by
  obtain ⟨month,hmonth,rfl⟩ := List.mem_map.mp hp
  exact ⟨month,isMonth_of_mem hmonth,rfl⟩

private theorem monthPartition_canonical {year month : Nat}
    (hmonth : LayoutWorld.isMonth month = true)
    {p : MonthPartition} (hp : p ∈ canonicalPartitions)
    (hname : monthPartitionName year month = p.name) : monthPartition year month = p := by
  obtain ⟨month',hmonth',rfl⟩ := mem_canonicalPartitions hp
  obtain ⟨rfl,rfl⟩ := monthPartitionName_injective hmonth hmonth' hname
  rfl

private theorem canonicalNames_nodup : canonicalNames.Nodup := by
  rw [canonicalNames,canonicalPartitions,List.map_map]
  apply List.Nodup.map_on
  · intro month hmonth month' hmonth' hname
    exact (monthPartitionName_injective (isMonth_of_mem hmonth) (isMonth_of_mem hmonth') hname).2
  · exact List.nodup_range'

private theorem monthPartition_bound (year : Nat) {month : Nat}
    (hmonth : LayoutWorld.isMonth month = true) :
    (monthPartition year month).bound =
      .range (firstOfMonth year (month - 1)) (firstOfMonth year month) := by
  have hupper : (monthPartition year month).upper = firstOfMonth year month := by
    simp only [monthPartition,monthBounds]
    split
    · rename_i hdecember
      subst hdecember
      rfl
    · rfl
  rw [MonthPartition.bound,hupper]
  rfl

private theorem canonical_not_isEmpty : ∀ p ∈ canonicalPartitions, p.bound.isEmpty = false := by
  intro p hp
  obtain ⟨month,hmonth,rfl⟩ := mem_canonicalPartitions hp
  rw [monthPartition_bound _ hmonth]
  simp only [LayoutWorld.isMonth,Bool.and_eq_true,decide_eq_true_eq] at hmonth
  simp only [PartitionBound.isEmpty,firstOfMonth]
  exact decide_eq_false (by omega)

private theorem canonical_disjoint : ∀ p ∈ canonicalPartitions, ∀ q ∈ canonicalPartitions,
    p.name ≠ q.name → p.bound.overlaps q.bound = false := by
  intro p hp q hq hname
  obtain ⟨month,hmonth,rfl⟩ := mem_canonicalPartitions hp
  obtain ⟨month',hmonth',rfl⟩ := mem_canonicalPartitions hq
  have hne : month ≠ month' := fun heq => hname (by rw [heq])
  rw [monthPartition_bound _ hmonth,monthPartition_bound _ hmonth']
  simp only [LayoutWorld.isMonth,Bool.and_eq_true,decide_eq_true_eq] at hmonth hmonth'
  simp only [PartitionBound.overlaps,firstOfMonth]
  rcases Nat.lt_or_gt_of_ne hne with hlt | hgt
  · exact Bool.and_eq_false_imp.mpr fun _ => decide_eq_false (by omega)
  · exact Bool.and_eq_false_iff.mpr (.inl (decide_eq_false (by omega)))

/-- A partition with a canonical name has the canonical bound. -/
def BoundSound (name : String) (bound : PartitionBound) : Prop :=
  ∀ p ∈ canonicalPartitions, name = p.name → bound = p.bound

def Relation.Sound (r : Relation) : Prop :=
  ∀ bound, r.boundIn PARTITIONED_TABLE = some bound → BoundSound r.name bound

def Catalog.Sound (c : Catalog) : Prop := ∀ r ∈ c.relations, r.Sound

def Ddl.Sound : Ddl → Prop
  | .createPartitionOf _ name _ bound => BoundSound name bound
  | _ => True

theorem exec_sound {c c' : Catalog} {statement : Ddl} (hc : c.Sound) (hd : statement.Sound)
    (h : c.exec statement = .ok c') : c'.Sound := by
  cases statement with
  | detachPartition parentTable partitionName =>
    simp only [Catalog.exec] at h
    split at h
    · cases h
      apply forall_mem_updateWhere (Q := Relation.Sound) hc
      · intro r _ _ _ bound hbound
        cases hbound
      · exact fun r _ hr _ => hr
    · cases h
  | dropTable name =>
    simp only [Catalog.exec] at h
    split at h
    · cases h
      exact fun r hr => hc r (List.mem_of_mem_filter hr)
    · cases h
  | createPartitionOf ifNotExists name parentTable bound =>
    simp only [Catalog.exec] at h
    split at h
    · split at h
      · cases h
        exact hc
      · cases h
    · split at h
      · cases h
      · cases h
        refine forall_append_next hc fun b hb => ?_
        simp only [Relation.boundIn] at hb
        split at hb
        · cases hb
          exact hd
        · cases hb

def LayoutWorld.Sound (w : LayoutWorld) : Prop :=
  w.catalog.Sound ∧ ∀ session, ∀ statement ∈ w.pending session, statement.Sound

theorem reconcileStatements_sound (existing : List ExistingPartition) :
    ∀ statement ∈ reconcileStatements existing, statement.Sound := by
  intro statement hmem
  rcases List.mem_append.mp hmem with hdrop | hcreate
  · obtain ⟨partition,_,hstatement⟩ := List.mem_flatMap.mp hdrop
    simp only [detachAndDrop,List.mem_cons,List.not_mem_nil,or_false] at hstatement
    rcases hstatement with rfl | rfl <;> trivial
  · obtain ⟨partition,hpartition,hstatement⟩ := List.mem_flatMap.mp hcreate
    rw [createMonthPartition,List.mem_singleton] at hstatement
    subst hstatement
    obtain ⟨month,hmonth,rfl⟩ := mem_canonicalPartitions (List.mem_of_mem_filter hpartition)
    intro p hp hname
    rw [monthPartition_canonical hmonth hp hname]

theorem begin_sound {w w' : LayoutWorld} {session : Nat} {statements : List Ddl} (hw : w.Sound)
    (hnew : ∀ statement ∈ statements, statement.Sound)
    (h : w.begin session statements = some w') : w'.Sound := by
  simp only [LayoutWorld.begin] at h
  split at h
  · cases h
    refine ⟨hw.1,fun s statement hmem => ?_⟩
    by_cases hs : s = session
    · subst hs
      exact hnew statement (by simpa using hmem)
    · exact hw.2 s statement (by simpa [hs] using hmem)
  · cases h

theorem pending_sound {w : LayoutWorld} (hw : w.Sound) {session : Nat} {statements : List Ddl}
    (hsub : ∀ statement ∈ statements, statement ∈ w.pending session) :
    ∀ s, ∀ statement ∈ Function.update w.pending session statements s, statement.Sound := by
  intro s statement hmem
  by_cases hs : s = session
  · subst hs
    exact hw.2 s statement (hsub statement (by simpa using hmem))
  · exact hw.2 s statement (by simpa [hs] using hmem)

theorem step_sound {w w' : LayoutWorld} {e : LayoutEvent} (hw : w.Sound)
    (h : w.step e = some w') : w'.Sound := by
  cases e with
  | purge session year month =>
    simp only [LayoutWorld.step] at h
    split at h
    · refine begin_sound hw ?_ h
      simp [detachAndDrop,Ddl.Sound]
    · cases h
  | createMonth session ifNotExists year month =>
    simp only [LayoutWorld.step] at h
    split at h
    · rename_i hmonth
      refine begin_sound hw (List.forall_mem_singleton.mpr ?_) h
      intro p hp hname
      rw [monthPartition_canonical hmonth hp hname]
    · cases h
  | createDefault session ifNotExists name =>
    simp only [LayoutWorld.step] at h
    split at h
    · rename_i hname
      refine begin_sound hw (List.forall_mem_singleton.mpr ?_) h
      intro p hp heq
      exact absurd (heq ▸ List.mem_map_of_mem hp) hname
    · cases h
  | reconcile session => exact begin_sound hw (reconcileStatements_sound _) h
  | send session =>
    simp only [LayoutWorld.step] at h
    split at h
    · cases h
    · rename_i statement rest hpending
      have hstatement : statement.Sound := hw.2 session statement (by simp [hpending])
      split at h
      · rename_i catalog hexec
        cases h
        refine ⟨exec_sound hw.1 hstatement hexec,pending_sound hw fun d hd => ?_⟩
        rw [hpending]
        exact List.mem_cons_of_mem _ hd
      · cases h
        exact ⟨hw.1,pending_sound hw nofun⟩
  | interrupt session =>
    cases h
    exact ⟨hw.1,pending_sound hw nofun⟩

theorem canonicalCatalog_sound : canonicalCatalog.Sound := by
  intro r hr bound hbound p hp hname
  obtain ⟨q,hq,rfl⟩ := List.mem_map.mp hr
  have hqp : q = p := List.inj_on_of_nodup_map canonicalNames_nodup hq hp hname
  simp only [Relation.boundIn,if_true,Option.some.injEq] at hbound
  rw [← hbound,hqp]

theorem run_sound {w : LayoutWorld} {es : List LayoutEvent}
    (hrun : run LayoutWorld.step .canonical es = some w) : w.catalog.Sound := by
  have hstart : LayoutWorld.canonical.Sound := ⟨canonicalCatalog_sound,fun _ => nofun⟩
  exact (run_invariant (fun _ _ _ => step_sound) hstart hrun).1

private theorem execAll_append (c : Catalog) (statements rest : List Ddl) :
    c.execAll (statements ++ rest) = (c.execAll statements).bind fun c' => c'.execAll rest :=
  List.foldlM_append

/-- A partition that is detached and dropped is gone, and nothing else changes. -/
theorem execAll_detachAndDrop {c : Catalog} {name parentTable : String}
    (h : ∃ r ∈ c.relations, r.name = name ∧ (r.boundIn parentTable).isSome) :
    c.execAll (detachAndDrop parentTable name) = .ok (c.drop name) := by
  obtain ⟨r,hr,hname,hattached⟩ := h
  have hany : (c.relations.any fun r => r.name = name && (r.boundIn parentTable).isSome) = true := by
    refine List.any_eq_true.mpr ⟨r,hr,?_⟩
    simp [hname,hattached]
  have hnames : (c.detach name).names = c.names :=
    map_updateWhere Relation.name Relation.detached_name c.relations
  have hmem : name ∈ c.names := hname ▸ List.mem_map_of_mem hr
  have hdrop : (c.detach name).drop name = c.drop name := by
    simp only [Catalog.drop,Catalog.detach,Catalog.mk.injEq]
    rw [filter_updateWhere fun r => by rw [Relation.detached_name]]
    apply updateWhere_of_forall_not
    intro q hq
    simpa using (List.mem_filter.mp hq).2
  simp only [Catalog.execAll,detachAndDrop,List.foldlM_cons,List.foldlM_nil,Catalog.exec,hany,
    if_true]
  rw [← hdrop]
  simp only [bind,Except.bind,hnames,if_pos hmem]
  rfl

private theorem execAll_drops {names : List String} {parentTable : String} (hn : names.Nodup)
    {c : Catalog}
    (h : ∀ name ∈ names, ∃ r ∈ c.relations, r.name = name ∧ (r.boundIn parentTable).isSome) :
    ∃ c', c.execAll (names.flatMap (detachAndDrop parentTable)) = .ok c' ∧
      c'.relations = c.relations.filter fun r => r.name ∉ names := by
  induction names generalizing c with
  | nil => exact ⟨c,rfl,by simp⟩
  | cons name names ih =>
    obtain ⟨hfresh,hn⟩ := List.nodup_cons.mp hn
    have hrest : ∀ other ∈ names, ∃ r ∈ (c.drop name).relations,
        r.name = other ∧ (r.boundIn parentTable).isSome := by
      intro other hother
      obtain ⟨r,hr,hname,hattached⟩ := h other (List.mem_cons_of_mem _ hother)
      refine ⟨r,List.mem_filter.mpr ⟨hr,?_⟩,hname,hattached⟩
      have hne : other ≠ name := fun heq => hfresh (heq ▸ hother)
      simpa [hname] using hne
    obtain ⟨c',hexec,hrelations⟩ := ih hn hrest
    refine ⟨c',?_,?_⟩
    · rw [List.flatMap_cons,execAll_append,
        execAll_detachAndDrop (h name List.mem_cons_self)]
      exact hexec
    · rw [hrelations,Catalog.drop,List.filter_filter]
      apply List.filter_congr
      intro r _
      simp [Bool.and_comm]

/-- Every partition of the table is one of the canonical ones. -/
def Catalog.OnlyCanonical (c : Catalog) : Prop :=
  ∀ r ∈ c.relations, ∀ bound, r.boundIn PARTITIONED_TABLE = some bound →
    ∃ p ∈ canonicalPartitions, r.name = p.name ∧ bound = p.bound

/-- The relation that a canonical partition becomes. -/
def attachedPartition (p : MonthPartition) : Relation :=
  ⟨p.name,some (PARTITIONED_TABLE,p.bound)⟩

private theorem overlapping_nil {c : Catalog} (hc : c.OnlyCanonical) {p : MonthPartition}
    (hp : p ∈ canonicalPartitions) (hfresh : p.name ∉ c.names) :
    c.overlapping PARTITIONED_TABLE p.bound = [] := by
  rw [Catalog.overlapping,List.filter_eq_nil_iff]
  intro r hr
  cases hbound : r.boundIn PARTITIONED_TABLE with
  | none => simp
  | some bound =>
    obtain ⟨q,hq,hname,rfl⟩ := hc r hr bound hbound
    have hne : p.name ≠ q.name := by
      intro heq
      exact hfresh (heq ▸ hname ▸ List.mem_map_of_mem hr)
    simp [canonical_disjoint p hp q hq hne]

private theorem execAll_creates {ps : List MonthPartition}
    (hsub : ∀ p ∈ ps, p ∈ canonicalPartitions)
    (hn : (ps.map MonthPartition.name).Nodup) {c : Catalog} (hc : c.OnlyCanonical) :
    ∃ c', c.execAll (ps.flatMap (createMonthPartition PARTITIONED_TABLE)) = .ok c' ∧
      c'.relations =
        c.relations ++ (ps.filter fun p => p.name ∉ c.names).map attachedPartition := by
  induction ps generalizing c with
  | nil => exact ⟨c,rfl,by simp⟩
  | cons p ps ih =>
    rw [List.map_cons,List.nodup_cons] at hn
    have hp := hsub p List.mem_cons_self
    have hps : ∀ q ∈ ps, q ∈ canonicalPartitions := fun q hq => hsub q (List.mem_cons_of_mem _ hq)
    rw [List.flatMap_cons]
    by_cases hname : p.name ∈ c.names
    · have hexec : c.execAll (createMonthPartition PARTITIONED_TABLE p) = .ok c := by
        simp [Catalog.execAll,createMonthPartition,Catalog.exec,hname]
      obtain ⟨c',hexec',hrelations⟩ := ih hps hn.2 hc
      refine ⟨c',?_,?_⟩
      · rw [execAll_append,hexec]
        exact hexec'
      · simpa [hname] using hrelations
    · have hexec : c.execAll (createMonthPartition PARTITIONED_TABLE p) =
          .ok (c.create p.name PARTITIONED_TABLE p.bound hname) := by
        simp [Catalog.execAll,createMonthPartition,Catalog.exec,hname,
          canonical_not_isEmpty p hp,overlapping_nil hc hp hname]
      have hc' : (c.create p.name PARTITIONED_TABLE p.bound hname).OnlyCanonical := by
        refine forall_append_next hc fun bound hbound => ?_
        simp only [Relation.boundIn,if_true,Option.some.injEq] at hbound
        exact ⟨p,hp,rfl,hbound.symm⟩
      obtain ⟨c',hexec',hrelations⟩ := ih hps hn.2 hc'
      refine ⟨c',?_,?_⟩
      · rw [execAll_append,hexec]
        exact hexec'
      · have hfree : (ps.filter fun q =>
              q.name ∉ (c.create p.name PARTITIONED_TABLE p.bound hname).names) =
            ps.filter fun q => q.name ∉ c.names := by
          apply List.filter_congr
          intro q hq
          have hne : q.name ≠ p.name := fun heq => hn.1 (heq ▸ List.mem_map_of_mem hq)
          simp [Catalog.names,Catalog.create,hne]
        rw [hrelations,hfree]
        simp [hname,Catalog.create,attachedPartition]

/-- The twelve months, as `listExistingPartitions` lists them. -/
def canonicalListing : List ExistingPartition :=
  canonicalPartitions.map fun p => ⟨p.name,p.bound⟩

private theorem canonicalListing_sorted :
    canonicalListing.Pairwise fun p q => p.name < q.name := by
  decide +kernel

private theorem canonicalListing_names :
    canonicalListing.map ExistingPartition.name = canonicalNames := by
  rw [canonicalListing,List.map_map]
  rfl

private theorem canonicalListing_reconciled :
    superfluous canonicalListing = [] ∧ missing canonicalListing = [] := by
  constructor
  · apply List.filter_eq_nil_iff.mpr
    intro partition hpartition
    have hname := List.mem_map_of_mem (f := ExistingPartition.name) hpartition
    rw [canonicalListing_names] at hname
    simpa using hname
  · apply List.filter_eq_nil_iff.mpr
    intro partition hpartition
    rw [canonicalListing_names]
    have hname : partition.name ∈ canonicalNames := List.mem_map_of_mem hpartition
    simpa using hname

/-- No relation that is detached has the name of a canonical partition. -/
def Catalog.NoLeftover (c : Catalog) : Prop :=
  ∀ r ∈ c.relations, r.boundIn PARTITIONED_TABLE = none → r.name ∉ canonicalNames

instance (c : Catalog) : Decidable c.NoLeftover :=
  inferInstanceAs (Decidable (∀ r ∈ c.relations, _ → _))

private theorem mem_attachedTo {c : Catalog} {parentTable : String}
    {partition : ExistingPartition} :
    partition ∈ attachedTo c parentTable ↔
      ∃ r ∈ c.relations, r.name = partition.name ∧ r.boundIn parentTable = some partition.bound := by
  obtain ⟨name,bound⟩ := partition
  rw [attachedTo,List.mem_filterMap]
  constructor
  · rintro ⟨r,hr,hpartition⟩
    obtain ⟨bound',hbound,heq⟩ := Option.map_eq_some_iff.mp hpartition
    cases heq
    exact ⟨r,hr,rfl,hbound⟩
  · rintro ⟨r,hr,hname,hbound⟩
    have hname' : r.name = name := hname
    refine ⟨r,hr,?_⟩
    simp [hbound,hname']

private theorem attachedTo_nodup (c : Catalog) (parentTable : String) :
    ((attachedTo c parentTable).map ExistingPartition.name).Nodup := by
  have hsub : ∀ rows : List Relation, ((rows.filterMap fun r =>
      (r.boundIn parentTable).map fun bound => ExistingPartition.mk r.name bound).map
        ExistingPartition.name).Sublist (rows.map Relation.name) := by
    intro rows
    induction rows with
    | nil => exact .slnil
    | cons r rows ih =>
      cases hbound : r.boundIn parentTable with
      | none => simpa [hbound] using ih.cons r.name
      | some bound => simpa [hbound] using ih.cons_cons r.name
  exact c.unique.sublist (hsub c.relations)

private theorem mem_listExistingPartitions {c : Catalog} {parentTable : String}
    {partition : ExistingPartition} :
    partition ∈ listExistingPartitions c parentTable ↔
      ∃ r ∈ c.relations, r.name = partition.name ∧ r.boundIn parentTable = some partition.bound :=
  (orderBy_perm ExistingPartition.name _).mem_iff.trans mem_attachedTo

private theorem mem_existingNames {c : Catalog} {name : String} :
    name ∈ (listExistingPartitions c PARTITIONED_TABLE).map ExistingPartition.name ↔
      ∃ r ∈ c.relations, r.name = name ∧ (r.boundIn PARTITIONED_TABLE).isSome := by
  simp only [List.mem_map,mem_listExistingPartitions,Option.isSome_iff_exists]
  constructor
  · rintro ⟨partition,⟨r,hr,hname,hbound⟩,rfl⟩
    exact ⟨r,hr,hname,_,hbound⟩
  · rintro ⟨r,hr,rfl,bound,hbound⟩
    exact ⟨⟨r.name,bound⟩,⟨r,hr,rfl,hbound⟩,rfl⟩

private theorem mem_superfluousNames {c : Catalog} {name : String} :
    name ∈ (superfluous (listExistingPartitions c PARTITIONED_TABLE)).map ExistingPartition.name ↔
      name ∉ canonicalNames ∧
        name ∈ (listExistingPartitions c PARTITIONED_TABLE).map ExistingPartition.name := by
  simp only [superfluous,List.mem_map,List.mem_filter,decide_eq_true_eq]
  constructor
  · rintro ⟨partition,⟨hpartition,hname⟩,rfl⟩
    exact ⟨hname,partition,hpartition,rfl⟩
  · rintro ⟨hname,partition,hpartition,rfl⟩
    exact ⟨partition,⟨hpartition,hname⟩,rfl⟩

private theorem eq_of_name_eq {c : Catalog} {r q : Relation} (hr : r ∈ c.relations)
    (hq : q ∈ c.relations)
    (h : r.name = q.name) : r = q :=
  eq_of_key_eq c.unique hr hq h

private theorem execAll_superfluous (c : Catalog) :
    ∃ kept, c.execAll ((superfluous (listExistingPartitions c PARTITIONED_TABLE)).flatMap
        fun partition => detachAndDrop PARTITIONED_TABLE partition.name) = .ok kept ∧
      ∀ r, r ∈ kept.relations ↔
        r ∈ c.relations ∧ (r.name ∈ canonicalNames ∨ r.boundIn PARTITIONED_TABLE = none) := by
  let dropped := (superfluous (listExistingPartitions c PARTITIONED_TABLE)).map
    ExistingPartition.name
  have hdropped : dropped.Nodup := by
    have hnames := ((orderBy_perm ExistingPartition.name (attachedTo c PARTITIONED_TABLE)).map
      ExistingPartition.name).nodup_iff.mpr (attachedTo_nodup c PARTITIONED_TABLE)
    exact hnames.sublist (List.filter_sublist.map _)
  have hattached : ∀ name ∈ dropped, ∃ r ∈ c.relations,
      r.name = name ∧ (r.boundIn PARTITIONED_TABLE).isSome :=
    fun name hname => mem_existingNames.mp (mem_superfluousNames.mp hname).2
  obtain ⟨kept,hexec,hkept⟩ := execAll_drops hdropped hattached
  rw [List.flatMap_map] at hexec
  refine ⟨kept,hexec,fun r => ?_⟩
  rw [hkept,List.mem_filter,decide_eq_true_eq]
  apply and_congr_right
  intro hr
  rw [mem_superfluousNames,mem_existingNames]
  by_cases hname : r.name ∈ canonicalNames
  · simp [hname]
  cases hbound : r.boundIn PARTITIONED_TABLE with
  | none =>
    refine iff_of_true ?_ (.inr rfl)
    rintro ⟨_,q,hq,hqname,hattached⟩
    rw [eq_of_name_eq hq hr hqname,hbound] at hattached
    cases hattached
  | some bound =>
    have hdrop : ∃ q ∈ c.relations, q.name = r.name ∧ (q.boundIn PARTITIONED_TABLE).isSome :=
      ⟨r,hr,rfl,by simp [hbound]⟩
    simp [hname,hdrop]

/-- A canonical partition comes to be created if and only if nothing has its name. -/
theorem created_iff {c kept : Catalog} (hkept : ∀ r, r ∈ kept.relations ↔
      r ∈ c.relations ∧ (r.name ∈ canonicalNames ∨ r.boundIn PARTITIONED_TABLE = none))
    {p : MonthPartition} (hp : p ∈ canonicalPartitions) :
    p ∈ missing (listExistingPartitions c PARTITIONED_TABLE) ∧ p.name ∉ kept.names ↔
      p.name ∉ c.names := by
  simp only [missing,List.mem_filter,decide_eq_true_eq]
  constructor
  · rintro ⟨_,hfree⟩ hname
    obtain ⟨r,hr,hrname⟩ := List.mem_map.mp hname
    have hcanonical : r.name ∈ canonicalNames := hrname ▸ List.mem_map_of_mem hp
    exact hfree (hrname ▸ List.mem_map_of_mem ((hkept r).mpr ⟨hr,.inl hcanonical⟩))
  · intro hname
    refine ⟨⟨hp,fun hexisting => ?_⟩,fun hfree => ?_⟩
    · obtain ⟨r,hr,hrname,_⟩ := mem_existingNames.mp hexisting
      exact hname (hrname ▸ List.mem_map_of_mem hr)
    · obtain ⟨r,hr,hrname⟩ := List.mem_map.mp hfree
      exact hname (hrname ▸ List.mem_map_of_mem ((hkept r).mp hr).1)

/-- Reconciling always returns. It drops the partitions that are not canonical, and attaches the
canonical ones whose name nothing has. -/
theorem reconcileCanonicalPartitionLayout_spec {c : Catalog} (hc : c.Sound) :
    ∃ reconciled c', reconcileCanonicalPartitionLayout c = .ok (reconciled,c') ∧
      ∀ r, r ∈ c'.relations ↔
        r ∈ c.relations ∧ (r.name ∈ canonicalNames ∨ r.boundIn PARTITIONED_TABLE = none) ∨
          ∃ p ∈ canonicalPartitions, p.name ∉ c.names ∧ r = attachedPartition p := by
  obtain ⟨kept,hdrops,hkept⟩ := execAll_superfluous c
  have honly : kept.OnlyCanonical := by
    intro r hr bound hbound
    obtain ⟨hr,hname | hnone⟩ := (hkept r).mp hr
    · obtain ⟨p,hp,hpname⟩ := List.mem_map.mp hname
      exact ⟨p,hp,hpname.symm,hc r hr bound hbound p hp hpname.symm⟩
    · rw [hbound] at hnone
      cases hnone
  let created := missing (listExistingPartitions c PARTITIONED_TABLE)
  have hsub : ∀ p ∈ created, p ∈ canonicalPartitions := fun p hp => List.mem_of_mem_filter hp
  have hnames : (created.map MonthPartition.name).Nodup :=
    canonicalNames_nodup.sublist (List.filter_sublist.map _)
  obtain ⟨c',hcreates,hrelations⟩ := execAll_creates hsub hnames honly
  have hexec : c.execAll
      (reconcileStatements (listExistingPartitions c PARTITIONED_TABLE)) = .ok c' := by
    rw [reconcileStatements,execAll_append,hdrops]
    exact hcreates
  refine ⟨⟨_,_⟩,c',by rw [reconcileCanonicalPartitionLayout,hexec]; rfl,fun r => ?_⟩
  rw [hrelations,List.mem_append,hkept,List.mem_map]
  apply or_congr_right
  constructor
  · rintro ⟨p,hp,rfl⟩
    obtain ⟨hp,hfree⟩ := List.mem_filter.mp hp
    exact ⟨p,hsub p hp,(created_iff hkept (hsub p hp)).mp ⟨hp,of_decide_eq_true hfree⟩,rfl⟩
  · rintro ⟨p,hp,hname,rfl⟩
    obtain ⟨hcreated,hfree⟩ := (created_iff hkept hp).mpr hname
    exact ⟨p,List.mem_filter.mpr ⟨hcreated,decide_eq_true hfree⟩,rfl⟩

/-- The partitions are exactly the canonical ones, with their bounds. -/
def Catalog.IsCanonical (c : Catalog) : Prop :=
  listExistingPartitions c PARTITIONED_TABLE = canonicalListing

instance (c : Catalog) : Decidable c.IsCanonical :=
  inferInstanceAs (Decidable (listExistingPartitions c PARTITIONED_TABLE = canonicalListing))

theorem isCanonical_iff {c : Catalog} :
    c.IsCanonical ↔ ∀ partition, (∃ r ∈ c.relations, r.name = partition.name ∧
        r.boundIn PARTITIONED_TABLE = some partition.bound) ↔ partition ∈ canonicalListing := by
  constructor
  · intro h partition
    rw [← mem_listExistingPartitions,h]
  · intro h
    refine (eq_orderBy_of_mem_iff (attachedTo_nodup c PARTITIONED_TABLE) canonicalListing_sorted
      fun partition => ?_).symm
    rw [mem_attachedTo]
    exact (h partition).symm

private theorem reconcile_canonical {c : Catalog} (h : c.IsCanonical) :
    reconcileCanonicalPartitionLayout c = .ok (⟨[],[]⟩,c) := by
  have hnone := canonicalListing_reconciled
  rw [reconcileCanonicalPartitionLayout,h,reconcileStatements,hnone.1,hnone.2]
  rfl

theorem reconciled_isCanonical_iff {c c' : Catalog} (hc : c.Sound)
    (hmem : ∀ r, r ∈ c'.relations ↔
      r ∈ c.relations ∧ (r.name ∈ canonicalNames ∨ r.boundIn PARTITIONED_TABLE = none) ∨
        ∃ p ∈ canonicalPartitions, p.name ∉ c.names ∧ r = attachedPartition p) :
    c'.IsCanonical ↔ c.NoLeftover := by
  rw [isCanonical_iff]
  constructor
  · intro h r hr hnone hname
    obtain ⟨p,hp,hpname⟩ := List.mem_map.mp hname
    have hstays : r ∈ c'.relations := (hmem r).mpr (.inl ⟨hr,.inr hnone⟩)
    obtain ⟨q,hq,hqname,hbound⟩ := (h ⟨p.name,p.bound⟩).mpr (List.mem_map_of_mem hp)
    have hqr : q = r := eq_of_name_eq hq hstays (hqname.trans hpname)
    rw [hqr,hnone] at hbound
    cases hbound
  · intro hleft partition
    constructor
    · rintro ⟨r,hr,hname,hbound⟩
      rcases (hmem r).mp hr with ⟨hr,hcanonical | hnone⟩ | ⟨p,hp,_,rfl⟩
      · obtain ⟨p,hp,hpname⟩ := List.mem_map.mp hcanonical
        have hpbound := hc r hr partition.bound hbound p hp hpname.symm
        refine List.mem_map.mpr ⟨p,hp,?_⟩
        rw [hpname,hname,← hpbound]
      · rw [hbound] at hnone
        cases hnone
      · refine List.mem_map.mpr ⟨p,hp,?_⟩
        simp only [attachedPartition,Relation.boundIn,if_true,Option.some.injEq] at hname hbound
        rw [hname,hbound]
    · intro hpartition
      obtain ⟨p,hp,rfl⟩ := List.mem_map.mp hpartition
      by_cases hname : p.name ∈ c.names
      · obtain ⟨r,hr,hrname⟩ := List.mem_map.mp hname
        have hcanonical : r.name ∈ canonicalNames := hrname ▸ List.mem_map_of_mem hp
        refine ⟨r,(hmem r).mpr (.inl ⟨hr,.inl hcanonical⟩),hrname,?_⟩
        cases hbound : r.boundIn PARTITIONED_TABLE with
        | none => exact absurd hcanonical (hleft r hr hbound)
        | some bound => rw [hc r hr bound hbound p hp hrname]
      · refine ⟨attachedPartition p,(hmem _).mpr (.inr ⟨p,hp,hname,rfl⟩),rfl,?_⟩
        simp [attachedPartition,Relation.boundIn]

/-- From every catalog that scenarios and interrupted resets lead to, reconciling returns; it
restores the canonical layout, which a second run leaves as it is, if and only if no detached
relation was left behind under the name of a canonical month. -/
theorem reconcileCanonicalPartitionLayout_restores_iff {w : LayoutWorld} {es : List LayoutEvent}
    (hrun : run LayoutWorld.step .canonical es = some w) :
    (∃ result, reconcileCanonicalPartitionLayout w.catalog = .ok result) ∧
      ((∀ reconciled c, reconcileCanonicalPartitionLayout w.catalog = .ok (reconciled,c) →
          c.IsCanonical ∧ reconcileCanonicalPartitionLayout c = .ok (⟨[],[]⟩,c)) ↔
        w.catalog.NoLeftover) := by
  have hsound := run_sound hrun
  obtain ⟨reconciled,c,hreturns,hmem⟩ := reconcileCanonicalPartitionLayout_spec hsound
  have hiff := reconciled_isCanonical_iff hsound hmem
  refine ⟨⟨_,hreturns⟩,?_⟩
  constructor
  · exact fun h => hiff.mp (h reconciled c hreturns).1
  · intro hleft reconciled' c' hreturns'
    rw [hreturns] at hreturns'
    cases hreturns'
    have hcanonical := hiff.mpr hleft
    exact ⟨hcanonical,reconcile_canonical hcanonical⟩

/-- June is gone, January 2026 and a `DEFAULT` partition are there, and a first reset was
interrupted when it had detached the one of them and not dropped it. -/
theorem interruptedReset_restored :
    ∃ w, run LayoutWorld.step .canonical [.purge 0 2025 6,.send 0,.send 0,.createMonth 0 false 2026 1,
        .send 0,.createDefault 1 false "metric_events_partitioned_default",.send 1,.reconcile 2,
        .send 2,.interrupt 2] = some w ∧ w.catalog.names.length = 13 ∧
      ∀ reconciled c, reconcileCanonicalPartitionLayout w.catalog = .ok (reconciled,c) →
        c.IsCanonical ∧ reconcileCanonicalPartitionLayout c = .ok (⟨[],[]⟩,c) := by
  have hend : ((run LayoutWorld.step .canonical [.purge 0 2025 6,.send 0,.send 0,
      .createMonth 0 false 2026 1,.send 0,.createDefault 1 false "metric_events_partitioned_default",
      .send 1,.reconcile 2,.send 2,.interrupt 2]).any fun w =>
      decide (w.catalog.names.length = 13 ∧ w.catalog.NoLeftover)) = true := by
    decide +kernel
  obtain ⟨w,hrun,hw,_⟩ := exists_run_of_any hend
  have hw := of_decide_eq_true hw
  exact ⟨w,hrun,hw.1,(reconcileCanonicalPartitionLayout_restores_iff hrun).2.mpr hw.2⟩

/-- A purge of January that is interrupted after `DETACH` leaves a table behind with which
`CREATE TABLE IF NOT EXISTS` is content. -/
theorem interruptedPurge_not_restored :
    ¬ ∀ es w, run LayoutWorld.step .canonical es = some w →
      ∀ reconciled c, reconcileCanonicalPartitionLayout w.catalog = .ok (reconciled,c) →
        c.IsCanonical ∧ reconcileCanonicalPartitionLayout c = .ok (⟨[],[]⟩,c) := by
  intro h
  have hend : ((run LayoutWorld.step .canonical [.purge 0 2025 1,.send 0,.interrupt 0]).any fun w =>
      match reconcileCanonicalPartitionLayout w.catalog with
      | .ok (_,c) => decide ¬ c.IsCanonical
      | .error _ => false) = true := by
    decide +kernel
  obtain ⟨w,hrun,hw,_⟩ := exists_run_of_any hend
  cases hreturns : reconcileCanonicalPartitionLayout w.catalog with
  | error e => simp [hreturns] at hw
  | ok result =>
    simp only [hreturns,decide_eq_true_eq] at hw
    exact hw (h _ w hrun result.1 result.2 hreturns).1

end SystemsLab.Partitioning
