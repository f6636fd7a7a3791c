import SystemsLab.Metrics.MetricsRegistry

/-! # What the registry accumulates -/

namespace SystemsLab.Metrics

open Exposition

variable {ν : Type}

abbrev Series := String × Labels

def MetricCall.series (c : MetricCall ν) : Series := (c.name,c.labels)

/-- The key that the registry makes from a series. -/
def encode (s : Series) : String := MetricsRegistry.key s.1 s.2

theorem key_toList (name : String) (labels : Labels) :
    (MetricsRegistry.key name labels).toList = seriesText name labels := by
  have hpair : labels.map (fun label => (MetricsRegistry.labelPair label).toList) =
      labels.map labelText := by
    apply List.map_congr_left
    intro label _
    simp [MetricsRegistry.labelPair,labelText]
  rw [MetricsRegistry.key,seriesText]
  split
  · rfl
  · simp [String.toList_append,String.toList_intercalate,List.map_map,Function.comp_def,hpair]

theorem encode_injective {s s' : Series} (h : IsPlainSeries s.1 s.2) (h' : IsPlainSeries s'.1 s'.2)
    (heq : encode s = encode s') : s = s' := by
  have htext := congrArg String.toList heq
  rw [encode,encode,key_toList,key_toList] at htext
  obtain ⟨hname,hlabels⟩ := seriesText_injective h h' htext
  exact Prod.ext hname hlabels

/-- The values given to a series by the calls of one type, whatever the order of the labels. -/
def valuesGiven (type : MetricType) (calls : List (MetricCall ν)) (name : String)
    (labels : Labels) : List ν :=
  (calls.filter fun c => c.type = type ∧ c.name = name ∧ c.labels.Perm labels).map MetricCall.value

theorem valuesGiven_eq (type : MetricType) {calls : List (MetricCall ν)} {name : String}
    {labels : Labels}
    (h : ∀ d ∈ calls, d.name = name → d.labels.Perm labels → d.labels = labels) :
    valuesGiven type calls name labels =
      (calls.filter fun c => c.type = type ∧ c.series = (name,labels)).map MetricCall.value := by
  rw [valuesGiven]
  congr 1
  apply List.filter_congr
  intro d hd
  simp only [MetricCall.series,Prod.mk.injEq,decide_eq_decide]
  constructor
  · exact fun ⟨htype,hname,hperm⟩ => ⟨htype,hname,h d hd hname hperm⟩
  · rintro ⟨htype,hname,rfl⟩
    exact ⟨htype,hname,.refl _⟩

/-- The sum of the increments made with this name and this label set. -/
def counterTotal [Zero ν] [Add ν] (calls : List (MetricCall ν)) (name : String)
    (labels : Labels) : ν :=
  (valuesGiven .counter calls name labels).foldl (· + ·) 0

/-- The value that a gauge was set to last. -/
def lastSet (calls : List (MetricCall ν)) (name : String) (labels : Labels) : Option ν :=
  (valuesGiven .gauge calls name labels).getLast?

def accumulated [Zero ν] [Add ν] (calls : List (MetricCall ν)) (name : String) (labels : Labels) :
    Option ν :=
  if valuesGiven .counter calls name labels = [] then lastSet calls name labels
  else some (counterTotal calls name labels)

private theorem setHelp_plain {r : MetricsRegistry ν} {name : String} {help : Option String}
    (hr : ∀ entry ∈ r.helpText, IsPlainHelp entry.2)
    (hhelp : ∀ text, help = some text → IsPlainHelp text) :
    ∀ entry ∈ (r.setHelp name help).helpText, IsPlainHelp entry.2 := by
  cases help with
  | none => exact hr
  | some text =>
    simp only [MetricsRegistry.setHelp]
    split
    · intro entry hentry
      rcases InsertionMap.mem_set hentry with hold | rfl
      · exact hr entry hold
      · exact hhelp text rfl
    · exact hr

variable [Zero ν] [Add ν]

/-- What a call makes of the value that the series has had. -/
def MetricType.update : MetricType → Option ν → ν → ν
  | counter, old, value => old.getD 0 + value
  | gauge, _, value => value

/-- A map of the registry as it would be if its keys were the series themselves. -/
def table (type : MetricType) (calls : List (MetricCall ν)) : InsertionMap Series ν :=
  (calls.filter fun c => c.type = type).foldl
    (fun m c => m.set c.series (type.update (m.get c.series) c.value)) []

variable {type : MetricType} {calls : List (MetricCall ν)} {c : MetricCall ν} {s : Series}

private theorem table_append_same (h : c.type = type) (calls : List (MetricCall ν)) :
    table type (calls ++ [c]) = (table type calls).set c.series
      (type.update ((table type calls).get c.series) c.value) := by
  simp [table,List.filter_append,h]

private theorem table_append_other (h : c.type ≠ type) (calls : List (MetricCall ν)) :
    table type (calls ++ [c]) = table type calls := by
  simp [table,List.filter_append,h]

theorem mem_keys_table :
    s ∈ (table type calls).keys ↔ ∃ c ∈ calls, c.type = type ∧ c.series = s := by
  induction calls using List.reverseRecOn with
  | nil => simp [table,InsertionMap.keys]
  | append_singleton calls c ih =>
    by_cases hc : c.type = type
    · rw [table_append_same hc,InsertionMap.mem_keys_set,ih]
      simp [or_and_right,exists_or,hc,eq_comm]
    · rw [table_append_other hc,ih]
      simp [or_and_right,exists_or,hc]

theorem keys_table_nodup (type : MetricType) (calls : List (MetricCall ν)) :
    (table type calls).keys.Nodup := by
  induction calls using List.reverseRecOn with
  | nil => exact .nil
  | append_singleton calls c ih =>
    by_cases hc : c.type = type
    · rw [table_append_same hc]
      exact InsertionMap.keys_set_nodup ih _ _
    · rw [table_append_other hc]
      exact ih

theorem get_table (type : MetricType) (calls : List (MetricCall ν)) (s : Series) :
    (table type calls).get s =
      ((calls.filter fun c => c.type = type ∧ c.series = s).map MetricCall.value).foldl
        (fun old value => some (type.update old value)) none := by
  induction calls using List.reverseRecOn with
  | nil => rfl
  | append_singleton calls c ih =>
    rw [List.filter_append,List.map_append,List.foldl_append,← ih]
    by_cases hc : c.type = type
    · rw [table_append_same hc,InsertionMap.get_set]
      by_cases hs : c.series = s
      · simp [hc,hs]
      · simp [hs,Ne.symm hs]
    · rw [table_append_other hc]
      simp [hc]

theorem foldl_update_counter (values : List ν) (old : Option ν) (h : values ≠ []) :
    values.foldl (fun old value => some (MetricType.counter.update old value)) old =
      some (values.foldl (· + ·) (old.getD 0)) := by
  induction values generalizing old with
  | nil => exact absurd rfl h
  | cons value values ih =>
    cases values with
    | nil => rfl
    | cons next values => exact ih _ (List.cons_ne_nil _ _)

theorem foldl_update_gauge (values : List ν) :
    values.foldl (fun old value => some (MetricType.gauge.update old value)) none =
      values.getLast? := by
  induction values using List.reverseRecOn with
  | nil => rfl
  | append_singleton values value _ =>
    rw [List.foldl_append,List.getLast?_concat]
    rfl

/-- The names are valid, and no name is used as two types. -/
structure Admissible (w : MetricsWorld ν) (c : MetricCall ν) : Prop where
  name : IsMetricName c.name
  labels : ∀ label ∈ c.labels, IsLabelName label.1
  oneType : ∀ d ∈ w.calls, d.name = c.name → d.type = c.type

/-- Nothing has to be escaped, the labels of a series are always written in the same order, and a
metric gets a new series only if it is the one that got the newest series of its type, or if it is
new itself. -/
structure Orderly (w : MetricsWorld ν) (c : MetricCall ν) : Prop where
  values : ∀ label ∈ c.labels, IsPlainValue label.2
  help : ∀ text, c.help = some text → IsPlainHelp text
  oneOrder : ∀ d ∈ w.calls, d.name = c.name → d.labels.Perm c.labels → d.labels = c.labels
  grouped : c.series ∈ (table c.type w.calls).keys ∨
    c.name ∉ (table c.type w.calls).keys.map Prod.fst ∨
      ((table c.type w.calls).keys.map Prod.fst).getLast? = some c.name

instance (w : MetricsWorld ν) (c : MetricCall ν) : Decidable (Admissible w c) :=
  decidable_of_iff (IsMetricName c.name ∧ (∀ label ∈ c.labels, IsLabelName label.1) ∧
      ∀ d ∈ w.calls, d.name = c.name → d.type = c.type)
    ⟨fun h => ⟨h.1,h.2.1,h.2.2⟩,fun h => ⟨h.name,h.labels,h.oneType⟩⟩

instance (w : MetricsWorld ν) (c : MetricCall ν) : Decidable (Orderly w c) :=
  decidable_of_iff ((∀ label ∈ c.labels, IsPlainValue label.2) ∧
      (∀ text ∈ c.help, IsPlainHelp text) ∧
      (∀ d ∈ w.calls, d.name = c.name → d.labels.Perm c.labels → d.labels = c.labels) ∧
      (c.series ∈ (table c.type w.calls).keys ∨
        c.name ∉ (table c.type w.calls).keys.map Prod.fst ∨
          ((table c.type w.calls).keys.map Prod.fst).getLast? = some c.name))
    ⟨fun h => ⟨h.1,h.2.1,h.2.2.1,h.2.2.2⟩,fun h => ⟨h.values,h.help,h.oneOrder,h.grouped⟩⟩

/-- Equal elements come one after the other. -/
inductive Grouped {α : Type} : List α → Prop
  | nil : Grouped []
  | fresh {l : List α} {a : α} : Grouped l → a ∉ l → Grouped (l ++ [a])
  | again {l : List α} {a : α} : Grouped l → l.getLast? = some a → Grouped (l ++ [a])

/-- The registry is the tables under other keys. -/
structure Refines (w : MetricsWorld ν) : Prop where
  plain : ∀ c ∈ w.calls, IsPlainSeries c.name c.labels
  oneType : ∀ c ∈ w.calls, ∀ d ∈ w.calls, c.name = d.name → c.type = d.type
  oneOrder : ∀ c ∈ w.calls, ∀ d ∈ w.calls, c.name = d.name → c.labels.Perm d.labels →
    c.labels = d.labels
  help : ∀ entry ∈ w.registry.helpText, IsPlainHelp entry.2
  counters : w.registry.counters = (table .counter w.calls).rename encode
  gauges : w.registry.gauges = (table .gauge w.calls).rename encode
  grouped : ∀ type, Grouped ((table type w.calls).keys.map Prod.fst)

variable {w : MetricsWorld ν}

private theorem plain_of_mem_keys (h : Refines w) (hs : s ∈ (table type w.calls).keys) :
    IsPlainSeries s.1 s.2 := by
  obtain ⟨c,hc,_,rfl⟩ := mem_keys_table.mp hs
  exact h.plain c hc

private theorem get_encode (h : Refines w) (hs : IsPlainSeries s.1 s.2) :
    ((table type w.calls).rename encode).get (encode s) = (table type w.calls).get s :=
  InsertionMap.get_rename fun _ hj => encode_injective (plain_of_mem_keys h hj) hs

private theorem set_encode (h : Refines w) (hs : IsPlainSeries s.1 s.2) (value : ν) :
    ((table type w.calls).rename encode).set (encode s) value =
      ((table type w.calls).set s value).rename encode :=
  InsertionMap.set_rename (fun _ hj => encode_injective (plain_of_mem_keys h hj) hs) value

private theorem record_helpText (r : MetricsRegistry ν) (c : MetricCall ν) :
    (r.record c).helpText = (r.setHelp c.name c.help).helpText := by
  cases htype : c.type <;> simp only [MetricsRegistry.record,htype] <;> rfl

private theorem record_counters (h : Refines w) (hc : IsPlainSeries c.name c.labels) :
    (w.registry.record c).counters = (table .counter (w.calls ++ [c])).rename encode := by
  cases htype : c.type with
  | counter =>
    simp only [MetricsRegistry.record,htype,MetricsRegistry.incrementCounter,MetricsRegistry.setHelp_counters,
      h.counters]
    rw [table_append_same htype,← set_encode h hc,← get_encode h hc]
    rfl
  | gauge =>
    have hne : c.type ≠ .counter := by simp [htype]
    simp only [MetricsRegistry.record,htype,MetricsRegistry.setGauge,MetricsRegistry.setHelp_counters,h.counters,
      table_append_other hne]

private theorem record_gauges (h : Refines w) (hc : IsPlainSeries c.name c.labels) :
    (w.registry.record c).gauges = (table .gauge (w.calls ++ [c])).rename encode := by
  cases htype : c.type with
  | counter =>
    have hne : c.type ≠ .gauge := by simp [htype]
    simp only [MetricsRegistry.record,htype,MetricsRegistry.incrementCounter,MetricsRegistry.setHelp_gauges,
      h.gauges,table_append_other hne]
  | gauge =>
    simp only [MetricsRegistry.record,htype,MetricsRegistry.setGauge,MetricsRegistry.setHelp_gauges,h.gauges]
    rw [table_append_same htype,← set_encode h hc]
    rfl

private theorem grouped_append {type : MetricType} (h : Refines w) (horderly : Orderly w c) :
    Grouped ((table type (w.calls ++ [c])).keys.map Prod.fst) := by
  by_cases htype : c.type = type
  · subst htype
    rw [table_append_same rfl,InsertionMap.keys_set]
    split
    · exact h.grouped c.type
    · rename_i hnew
      rw [List.map_append]
      rcases horderly.grouped with hold | hfresh | hlast
      · exact absurd hold hnew
      · exact .fresh (h.grouped c.type) hfresh
      · exact .again (h.grouped c.type) hlast
  · rw [table_append_other htype]
    exact h.grouped type

theorem Refines.step (h : Refines w) (hadmissible : Admissible w c) (horderly : Orderly w c) :
    Refines ⟨w.registry.record c,w.calls ++ [c]⟩ := by
  have hplain : IsPlainSeries c.name c.labels :=
    ⟨hadmissible.name,fun label hlabel =>
      ⟨hadmissible.labels label hlabel,horderly.values label hlabel⟩⟩
  refine ⟨?_,?_,?_,?_,record_counters h hplain,record_gauges h hplain,fun _ => grouped_append h horderly⟩
  · exact forall_append_next h.plain hplain
  · apply forall_append_next
    · intro d hd
      refine forall_append_next (h.oneType d hd) fun hname => ?_
      exact hadmissible.oneType d hd hname
    · refine forall_append_next (fun d hd hname => ?_) fun _ => rfl
      exact (hadmissible.oneType d hd hname.symm).symm
  · apply forall_append_next
    · intro d hd
      exact forall_append_next (h.oneOrder d hd) (horderly.oneOrder d hd)
    · refine forall_append_next (fun d hd hname hperm => ?_) fun _ _ => rfl
      exact (horderly.oneOrder d hd hname.symm hperm.symm).symm
  · intro entry hentry
    rw [record_helpText] at hentry
    exact setHelp_plain h.help horderly.help entry hentry

/-- A question about a series: its labels are written as the calls write them. -/
structure Asked (w : MetricsWorld ν) (name : String) (labels : Labels) : Prop where
  plain : IsPlainSeries name labels
  oneOrder : ∀ d ∈ w.calls, d.name = name → d.labels.Perm labels → d.labels = labels

variable {name : String} {labels : Labels}

private theorem get_table_counter
    (h : ∀ d ∈ w.calls, d.name = name → d.labels.Perm labels → d.labels = labels) :
    (table .counter w.calls).get (name,labels) =
      if valuesGiven .counter w.calls name labels = [] then none
      else some (counterTotal w.calls name labels) := by
  rw [get_table,← valuesGiven_eq .counter h]
  split
  · rename_i hnil
    rw [hnil]
    rfl
  · rename_i hne
    exact foldl_update_counter _ none hne

private theorem get_table_gauge
    (h : ∀ d ∈ w.calls, d.name = name → d.labels.Perm labels → d.labels = labels) :
    (table .gauge w.calls).get (name,labels) = lastSet w.calls name labels := by
  rw [get_table,← valuesGiven_eq .gauge h]
  exact foldl_update_gauge _

theorem getCounter_eq (h : Refines w) (hasked : Asked w name labels) :
    w.registry.getCounter name labels = counterTotal w.calls name labels := by
  have hget : ((table .counter w.calls).rename encode).get (encode (name,labels)) =
      (table .counter w.calls).get (name,labels) := get_encode h hasked.plain
  rw [get_table_counter hasked.oneOrder] at hget
  rw [MetricsRegistry.getCounter,h.counters]
  change ((InsertionMap.get _ (encode (name,labels))).getD 0) = _
  rw [hget]
  split
  · rename_i hnil
    rw [counterTotal,hnil]
    rfl
  · rfl

theorem getGauge_eq (h : Refines w) (hasked : Asked w name labels) :
    w.registry.getGauge name labels = (lastSet w.calls name labels).getD 0 := by
  have hget : ((table .gauge w.calls).rename encode).get (encode (name,labels)) =
      (table .gauge w.calls).get (name,labels) := get_encode h hasked.plain
  rw [get_table_gauge hasked.oneOrder] at hget
  rw [MetricsRegistry.getGauge,h.gauges]
  exact congrArg (·.getD 0) hget

end SystemsLab.Metrics
