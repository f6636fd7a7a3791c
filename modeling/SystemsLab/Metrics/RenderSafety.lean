import SystemsLab.Metrics.RegistrySafety
import Mathlib.Algebra.GroupWithZero.Nat

/-! # What the rendered text says -/

namespace SystemsLab.Metrics

open Exposition

variable {ν : Type}

private theorem grouped_concat {α : Type} {l : List α} {a : α} (h : Grouped (l ++ [a])) :
    Grouped l ∧ (a ∉ l ∨ l.getLast? = some a) := by
  generalize hall : l ++ [a] = all at h
  cases h with
  | nil => simp at hall
  | fresh hl ha =>
    obtain ⟨rfl,heq⟩ := List.append_inj' hall rfl
    cases heq
    exact ⟨hl,.inl ha⟩
  | again hl ha =>
    obtain ⟨rfl,heq⟩ := List.append_inj' hall rfl
    cases heq
    exact ⟨hl,.inr ha⟩

private theorem Grouped.append {α : Type} {l m : List α} (hl : Grouped l) (hm : Grouped m)
    (hdisjoint : ∀ a ∈ m, a ∉ l) : Grouped (l ++ m) := by
  induction hm with
  | nil => simpa using hl
  | fresh hm ha ih =>
    rename_i m a
    rw [← List.append_assoc]
    refine .fresh (ih fun b hb => hdisjoint b (List.mem_append_left _ hb)) ?_
    rw [List.mem_append]
    exact fun h => h.elim (hdisjoint a (List.mem_append_right _ List.mem_cons_self)) ha
  | again hm ha ih =>
    rename_i m a
    rw [← List.append_assoc]
    refine .again (ih fun b hb => hdisjoint b (List.mem_append_left _ hb)) ?_
    rw [List.getLast?_append,ha,Option.some_or]

private theorem family_grouped (family : Family ν) :
    Grouped ((samples family.lines).map Prod.fst) := by
  rw [samples_family,List.map_map]
  induction family.samples using List.reverseRecOn with
  | nil => exact .nil
  | append_singleton rows row ih =>
    rw [List.map_append,List.map_singleton]
    cases hrows : rows.getLast? with
    | none =>
      rw [List.getLast?_eq_none_iff.mp hrows]
      exact .fresh .nil (List.not_mem_nil)
    | some last =>
      apply Grouped.again ih
      rw [List.getLast?_map,hrows]
      rfl

private theorem grouped_of_wellFormed {lines : List (ExpositionLine ν)} (h : WellFormed lines) :
    Grouped ((samples lines).map Prod.fst) := by
  obtain ⟨families,rfl,hnames,-⟩ := h
  induction families with
  | nil => exact .nil
  | cons family families ih =>
    rw [List.map_cons,List.nodup_cons] at hnames
    rw [List.flatMap_cons,samples_append,List.map_append]
    apply (family_grouped family).append (ih hnames.2)
    intro name hrest hown
    obtain ⟨s,hs,rfl⟩ := List.mem_map.mp hrest
    obtain ⟨t,ht,hname⟩ := List.mem_map.mp hown
    rw [samples_family] at ht
    obtain ⟨row,_,rfl⟩ := List.mem_map.mp ht
    apply hnames.1
    rw [show family.name = s.1 from hname]
    exact name_of_mem_samples hs

/-- What `render` comes across: a series, its type and its value. -/
abbrev Entry (ν : Type) := MetricType × Series × ν

def Entry.name (e : Entry ν) : String := e.2.1.1

def Entry.sample (e : Entry ν) : String × Labels × ν := (e.2.1.1,e.2.1.2,e.2.2)

/-- Emits an entry, under the key that stands for the series. -/
def emitEntry (format : NumberFormat ν) (helpText : InsertionMap String String)
    (rendering : MetricsRegistry.Rendering) (e : Entry ν) : MetricsRegistry.Rendering :=
  MetricsRegistry.emit format helpText e.1 rendering (encode e.2.1,e.2.2)

private theorem baseName_encode {s : Series} (h : IsPlainSeries s.1 s.2) :
    MetricsRegistry.baseName (encode s) = s.1 := by
  have hbrace : ∀ c ∈ s.1.toList, decide (c ≠ '{') = true := by
    intro c hc
    apply decide_eq_true
    rintro rfl
    have hallowed := h.name.all _ hc
    revert hallowed
    decide
  rw [MetricsRegistry.baseName,encode,key_toList,seriesText]
  split
  · rw [← List.append_nil s.1.toList,List.takeWhile_append_of_pos hbrace,List.takeWhile_nil,
      List.append_nil,String.ofList_toList]
  · rw [List.takeWhile_append_of_pos hbrace,List.takeWhile_cons_of_neg (by decide),List.append_nil,
      String.ofList_toList]

variable {format : NumberFormat ν} {helpText : InsertionMap String String} {entries : List (Entry ν)}
  {e : Entry ν} {rendering : MetricsRegistry.Rendering} {families : List (Family ν)}

/-- The lines so far are those of `families`, and say what the `entries` say. -/
structure Printed (format : NumberFormat ν) (entries : List (Entry ν))
    (rendering : MetricsRegistry.Rendering) (families : List (Family ν)) : Prop where
  seen : rendering.seenHelp = families.map Family.name
  lines : rendering.lines.map String.toList =
    (families.flatMap Family.lines).map (lineText format)
  samples : samples (families.flatMap Family.lines) = entries.map Entry.sample
  mem : ∀ name, name ∈ families.map Family.name ↔ name ∈ entries.map Entry.name
  last : (families.map Family.name).getLast? = (entries.map Entry.name).getLast?
  nodup : (families.map Family.name).Nodup
  plain : ∀ line ∈ families.flatMap Family.lines, IsPlainLine line

private theorem sample_toList (format : NumberFormat ν) (e : Entry ν) :
    (encode e.2.1 ++ " " ++ format.write e.2.2).toList =
      lineText format (.sample e.2.1.1 e.2.1.2 e.2.2) := by
  rw [String.toList_append,String.toList_append,encode,key_toList,List.append_assoc]
  rfl

private theorem help_toList (format : NumberFormat ν) (name text : String) :
    ("# HELP " ++ name ++ " " ++ text).toList = lineText format (.help name text) := by
  rw [String.toList_append,String.toList_append,String.toList_append,List.append_assoc,
    List.append_assoc]
  rfl

private theorem type_toList (format : NumberFormat ν) (name kind : String) :
    ("# TYPE " ++ name ++ " " ++ kind).toList = lineText format (.type name kind) := by
  rw [String.toList_append,String.toList_append,String.toList_append,List.append_assoc,
    List.append_assoc]
  rfl

/-- The lines of a metric that comes up for the first time. -/
def newFamily (helpText : InsertionMap String String) (e : Entry ν) : Family ν where
  name := e.name
  help := helpText.get e.name
  kind := e.1.text
  samples := [(e.2.1.2,e.2.2)]

private theorem newFamily_toList (format : NumberFormat ν) (helpText : InsertionMap String String)
    (e : Entry ν) :
    (((helpText.get e.name).toList.map fun help => "# HELP " ++ e.name ++ " " ++ help) ++
        ["# TYPE " ++ e.name ++ " " ++ e.1.text] ++
          [encode e.2.1 ++ " " ++ format.write e.2.2]).map String.toList =
      (newFamily helpText e).lines.map (lineText format) := by
  have hhelp : ((helpText.get e.name).toList.map fun help =>
        "# HELP " ++ e.name ++ " " ++ help).map String.toList =
      ((helpText.get e.name).toList.map (.help e.name)).map (lineText format) := by
    rw [List.map_map,List.map_map]
    apply List.map_congr_left
    intro text _
    exact help_toList format e.name text
  rw [List.map_append,List.map_append,hhelp,List.map_singleton,List.map_singleton,
    sample_toList format,type_toList format]
  simp only [newFamily,Family.lines,Family.header,List.map_append,List.map_singleton]
  rfl

private theorem emit_seen (hname : MetricsRegistry.baseName (encode e.2.1) = e.name)
    (hseen : e.name ∈ rendering.seenHelp) :
    emitEntry format helpText rendering e =
      { rendering with
        lines := rendering.lines ++ [encode e.2.1 ++ " " ++ format.write e.2.2] } := by
  simp only [emitEntry,MetricsRegistry.emit,hname,if_pos hseen]

private theorem emit_new (hname : MetricsRegistry.baseName (encode e.2.1) = e.name)
    (hseen : e.name ∉ rendering.seenHelp) :
    emitEntry format helpText rendering e =
      { lines := rendering.lines ++
          (((helpText.get e.name).toList.map fun help => "# HELP " ++ e.name ++ " " ++ help) ++
            ["# TYPE " ++ e.name ++ " " ++ e.1.text] ++
              [encode e.2.1 ++ " " ++ format.write e.2.2])
        seenHelp := rendering.seenHelp ++ [e.name] } := by
  simp only [emitEntry,MetricsRegistry.emit,hname,if_neg hseen,List.append_assoc]

private theorem newFamily_plain (hplain : IsPlainSeries e.2.1.1 e.2.1.2)
    (hhelp : ∀ entry ∈ helpText, IsPlainHelp entry.2) :
    ∀ line ∈ (newFamily helpText e).lines, IsPlainLine line := by
  intro line hline
  rcases List.mem_append.mp hline with hheader | hsample
  · rcases List.mem_append.mp hheader with hline | htype
    · obtain ⟨text,htext,rfl⟩ := List.mem_map.mp hline
      have hget : helpText.get e.name = some text := Option.mem_toList.mp htext
      exact ⟨hplain.name,hhelp _ (InsertionMap.mem_of_get hget)⟩
    · rw [List.mem_singleton.mp htype]
      refine ⟨hplain.name,?_⟩
      cases htype : e.1 <;> simp [newFamily,htype,MetricType.text,metricKinds]
  · obtain ⟨s,hs,rfl⟩ := List.mem_map.mp hsample
    rw [List.mem_singleton.mp hs]
    exact hplain

private theorem Printed.fresh (h : Printed format entries rendering families)
    (hplain : IsPlainSeries e.2.1.1 e.2.1.2) (hhelp : ∀ entry ∈ helpText, IsPlainHelp entry.2)
    (hfresh : e.name ∉ entries.map Entry.name) :
    Printed format (entries ++ [e]) (emitEntry format helpText rendering e)
      (families ++ [newFamily helpText e]) := by
  have hnew : e.name ∉ families.map Family.name := fun hmem => hfresh ((h.mem _).mp hmem)
  rw [emit_new (baseName_encode hplain) (h.seen ▸ hnew)]
  refine ⟨?_,?_,?_,?_,?_,?_,?_⟩
  · rw [h.seen,List.map_append]
    rfl
  · rw [List.map_append,h.lines,newFamily_toList,List.flatMap_append,List.map_append,
      List.flatMap_singleton]
  · rw [List.flatMap_append,samples_append,h.samples,List.flatMap_singleton,samples_family,
      List.map_append]
    rfl
  · intro name
    rw [List.map_append,List.map_append,List.mem_append,List.mem_append,h.mem]
    rfl
  · rw [List.map_append,List.map_append,List.map_singleton,List.map_singleton,
      List.getLast?_concat,List.getLast?_concat]
    rfl
  · exact nodup_append_fresh h.nodup hnew
  · rw [List.flatMap_append,List.flatMap_singleton]
    intro line hline
    rcases List.mem_append.mp hline with hold | hline
    · exact h.plain line hold
    · exact newFamily_plain hplain hhelp line hline

private theorem lines_append_sample (family : Family ν) (sample : Labels × ν) :
    ({ family with samples := family.samples ++ [sample] } : Family ν).lines =
      family.lines ++ [.sample family.name sample.1 sample.2] := by
  simp only [Family.lines,Family.header,List.map_append,List.map_singleton,List.append_assoc]

private theorem Printed.again (h : Printed format entries rendering families)
    (hplain : IsPlainSeries e.2.1.1 e.2.1.2)
    (hlast : (entries.map Entry.name).getLast? = some e.name) :
    ∃ families, Printed format (entries ++ [e]) (emitEntry format helpText rendering e)
      families := by
  have hmem : e.name ∈ families.map Family.name := (h.mem _).mpr (List.mem_of_getLast? hlast)
  rcases List.eq_nil_or_concat families with rfl | ⟨before,family,rfl⟩
  · cases hmem
  rw [List.concat_eq_append] at h hmem
  have hname : family.name = e.name := by
    have hlast' := h.last.trans hlast
    rw [List.map_append,List.map_singleton,List.getLast?_concat] at hlast'
    exact Option.some.inj hlast'
  let family' : Family ν := { family with samples := family.samples ++ [(e.2.1.2,e.2.2)] }
  have hnames : (before ++ [family']).map Family.name = (before ++ [family]).map Family.name := by
    rw [List.map_append,List.map_append]
    rfl
  have hlines : (before ++ [family']).flatMap Family.lines =
      (before ++ [family]).flatMap Family.lines ++ [.sample e.2.1.1 e.2.1.2 e.2.2] := by
    rw [List.flatMap_append,List.flatMap_append,List.flatMap_singleton,List.flatMap_singleton,
      lines_append_sample,hname,List.append_assoc]
    rfl
  refine ⟨before ++ [family'],?_⟩
  rw [emit_seen (baseName_encode hplain) (h.seen ▸ hmem)]
  refine ⟨?_,?_,?_,?_,?_,?_,?_⟩
  · rw [hnames]
    exact h.seen
  · rw [hlines,List.map_append,List.map_append,h.lines,List.map_singleton,List.map_singleton,
      sample_toList]
  · rw [hlines,samples_append,h.samples,List.map_append]
    rfl
  · intro name
    rw [hnames,h.mem,List.map_append,List.mem_append,List.map_singleton,List.mem_singleton]
    refine ⟨.inl,fun hin => hin.elim id fun heq => ?_⟩
    rw [heq]
    exact List.mem_of_getLast? hlast
  · rw [hnames,h.last,hlast,List.map_append,List.map_singleton,List.getLast?_concat]
  · rw [hnames]
    exact h.nodup
  · rw [hlines]
    exact forall_append_next h.plain hplain

private theorem printed_entries {entries : List (Entry ν)}
    (hgrouped : Grouped (entries.map Entry.name))
    (hplain : ∀ e ∈ entries, IsPlainSeries e.2.1.1 e.2.1.2)
    (hhelp : ∀ entry ∈ helpText, IsPlainHelp entry.2) :
    ∃ families, Printed format entries (entries.foldl (emitEntry format helpText) {}) families := by
  induction entries using List.reverseRecOn with
  | nil => exact ⟨[],rfl,rfl,rfl,fun _ => Iff.rfl,rfl,.nil,nofun⟩
  | append_singleton entries e ih =>
    rw [List.map_append,List.map_singleton] at hgrouped
    obtain ⟨hgrouped,hcase⟩ := grouped_concat hgrouped
    obtain ⟨families,hprinted⟩ := ih hgrouped fun e he => hplain e (List.mem_append_left _ he)
    have he := hplain e (List.mem_append_right _ List.mem_cons_self)
    rw [List.foldl_append]
    rcases hcase with hfresh | hlast
    · exact ⟨_,hprinted.fresh he hhelp hfresh⟩
    · exact hprinted.again he hlast

variable [Zero ν] [Add ν] {w : MetricsWorld ν}

/-- The series of a world, in the order in which `render` comes across them. -/
def MetricsWorld.listing (w : MetricsWorld ν) : List (Entry ν) :=
  (table .counter w.calls).map (fun e => (.counter,e)) ++
    (table .gauge w.calls).map (fun e => (.gauge,e))

private theorem render_eq (h : Refines w) (format : NumberFormat ν) :
    w.registry.render format = "\n".intercalate
      (w.listing.foldl (emitEntry format w.registry.helpText) {}).lines ++ "\n" := by
  rw [MetricsRegistry.render,h.counters,h.gauges,MetricsWorld.listing,List.foldl_append,
    InsertionMap.rename,InsertionMap.rename,List.foldl_map,List.foldl_map,List.foldl_map,
    List.foldl_map]
  rfl

private theorem call_of_mem_table {type : MetricType} {e : Series × ν}
    (h : e ∈ table type w.calls) :
    ∃ c ∈ w.calls, c.type = type ∧ c.series = e.1 :=
  mem_keys_table.mp (List.mem_map_of_mem h)

private theorem call_of_mem_listing {e : Entry ν} (h : e ∈ w.listing) :
    ∃ c ∈ w.calls, c.type = e.1 ∧ c.series = e.2.1 := by
  rcases List.mem_append.mp h with hcounter | hgauge
  · obtain ⟨entry,hentry,rfl⟩ := List.mem_map.mp hcounter
    exact call_of_mem_table hentry
  · obtain ⟨entry,hentry,rfl⟩ := List.mem_map.mp hgauge
    exact call_of_mem_table hentry

private theorem listing_plain (h : Refines w) : ∀ e ∈ w.listing, IsPlainSeries e.2.1.1 e.2.1.2 := by
  intro e he
  obtain ⟨c,hc,_,hseries⟩ := call_of_mem_listing he
  rw [← hseries]
  exact h.plain c hc

private theorem listing_names (w : MetricsWorld ν) : w.listing.map Entry.name =
    (table .counter w.calls).keys.map Prod.fst ++ (table .gauge w.calls).keys.map Prod.fst := by
  simp only [MetricsWorld.listing,InsertionMap.keys,List.map_append,List.map_map]
  rfl

private theorem listing_grouped (h : Refines w) : Grouped (w.listing.map Entry.name) := by
  rw [listing_names]
  apply (h.grouped .counter).append (h.grouped .gauge)
  intro name hgauge hcounter
  obtain ⟨s,hs,rfl⟩ := List.mem_map.mp hgauge
  obtain ⟨t,ht,hname⟩ := List.mem_map.mp hcounter
  obtain ⟨c,hc,hctype,rfl⟩ := mem_keys_table.mp hs
  obtain ⟨d,hd,hdtype,rfl⟩ := mem_keys_table.mp ht
  have htype := h.oneType d hd c hc hname
  rw [hctype,hdtype] at htype
  cases htype

private theorem series_eq {c d : MetricCall ν} (h : Refines w) (hc : c ∈ w.calls) (hd : d ∈ w.calls)
    (hname : c.name = d.name) (hperm : c.labels.Perm d.labels) : c.series = d.series :=
  Prod.ext hname (h.oneOrder c hc d hd hname hperm)

private theorem table_pairwise (h : Refines w) (type : MetricType) :
    (table type w.calls).Pairwise fun e e' => ¬ (e.1.1 = e'.1.1 ∧ e.1.2.Perm e'.1.2) := by
  have hkeys := keys_table_nodup type w.calls
  rw [InsertionMap.keys,List.Nodup,List.pairwise_map] at hkeys
  refine hkeys.imp_of_mem fun {e e'} he he' hne hsame => hne ?_
  obtain ⟨c,hc,_,hseries⟩ := call_of_mem_table he
  obtain ⟨d,hd,_,hseries'⟩ := call_of_mem_table he'
  rw [← hseries,← hseries'] at hsame ⊢
  exact series_eq h hc hd hsame.1 hsame.2

private theorem listing_pairwise (h : Refines w) :
    (w.listing.map Entry.sample).Pairwise fun s t => ¬ (s.1 = t.1 ∧ s.2.1.Perm t.2.1) := by
  rw [List.pairwise_map,MetricsWorld.listing,List.pairwise_append,List.pairwise_map,
    List.pairwise_map]
  refine ⟨table_pairwise h .counter,table_pairwise h .gauge,?_⟩
  intro e he e' he' hsame
  obtain ⟨entry,hentry,rfl⟩ := List.mem_map.mp he
  obtain ⟨entry',hentry',rfl⟩ := List.mem_map.mp he'
  obtain ⟨c,hc,hctype,hseries⟩ := call_of_mem_table hentry
  obtain ⟨d,hd,hdtype,hseries'⟩ := call_of_mem_table hentry'
  simp only [Entry.sample,← hseries,← hseries'] at hsame
  have htype := h.oneType c hc d hd hsame.1
  rw [hctype,hdtype] at htype
  cases htype

private theorem find_table (h : Refines w) (type : MetricType) (name : String) (labels : Labels) :
    ((table type w.calls).find? fun e => e.1.1 = name ∧ e.1.2.Perm labels).map Prod.snd =
      (valuesGiven type w.calls name labels).foldl
        (fun old value => some (type.update old value)) none := by
  by_cases hexists : ∃ d ∈ w.calls, d.type = type ∧ d.name = name ∧ d.labels.Perm labels
  · obtain ⟨d,hd,_,rfl,hperm⟩ := hexists
    have hvalues : valuesGiven type w.calls d.name labels =
        valuesGiven type w.calls d.name d.labels := by
      rw [valuesGiven,valuesGiven]
      congr 1
      apply List.filter_congr
      intro c _
      simp only [decide_eq_decide]
      exact and_congr_right fun _ => and_congr_right fun _ =>
        ⟨fun hc => hc.trans hperm.symm,fun hc => hc.trans hperm⟩
    have hfind : ((table type w.calls).find? fun e => e.1.1 = d.name ∧ e.1.2.Perm labels) =
        rowAt Prod.fst (table type w.calls) d.series := by
      rw [rowAt,← List.head?_filter,← List.head?_filter]
      congr 1
      apply List.filter_congr
      intro e he
      obtain ⟨c,hc,_,hseries⟩ := call_of_mem_table he
      rw [← hseries,decide_eq_decide]
      constructor
      · intro hboth
        exact series_eq h hc hd hboth.1 (hboth.2.trans hperm.symm)
      · intro heq
        have hname : c.name = d.name := congrArg Prod.fst heq
        have hlabels : c.labels = d.labels := congrArg Prod.snd heq
        refine ⟨hname,?_⟩
        rw [MetricCall.series,hlabels]
        exact hperm
    rw [hfind,hvalues,valuesGiven_eq type fun c hc hname hc' => h.oneOrder c hc d hd hname hc']
    exact get_table type w.calls d.series
  · have hvalues : valuesGiven type w.calls name labels = [] := by
      rw [valuesGiven,List.map_eq_nil_iff,List.filter_eq_nil_iff]
      intro d hd hmatch
      exact hexists ⟨d,hd,of_decide_eq_true hmatch⟩
    have hfind : ((table type w.calls).find? fun e => e.1.1 = name ∧ e.1.2.Perm labels) = none := by
      rw [List.find?_eq_none]
      intro e he hmatch
      obtain ⟨c,hc,htype,hseries⟩ := call_of_mem_table he
      have hmatch := of_decide_eq_true hmatch
      rw [← hseries] at hmatch
      exact hexists ⟨c,hc,htype,hmatch⟩
    rw [hfind,hvalues]
    rfl

private theorem find_listing (h : Refines w) (name : String) (labels : Labels) :
    ((w.listing.map Entry.sample).find? fun s => s.1 = name ∧ s.2.1.Perm labels).map
      (fun s => s.2.2) = accumulated w.calls name labels := by
  have hcounter := find_table h .counter name labels
  have hgauge := find_table h .gauge name labels
  rw [foldl_update_gauge] at hgauge
  have hsplit : ((w.listing.map Entry.sample).find? fun s => s.1 = name ∧ s.2.1.Perm labels).map
        (fun s => s.2.2) =
      (((table .counter w.calls).find? fun e => e.1.1 = name ∧ e.1.2.Perm labels).map Prod.snd).or
        (((table .gauge w.calls).find? fun e => e.1.1 = name ∧ e.1.2.Perm labels).map
          Prod.snd) := by
    rw [MetricsWorld.listing,List.map_append,List.map_map,List.map_map,List.find?_append,
      List.find?_map,List.find?_map,Option.map_or,Option.map_map,Option.map_map]
    rfl
  rw [hsplit,hcounter,hgauge,accumulated]
  split
  · rename_i hnil
    rw [hnil]
    rfl
  · rename_i hne
    rw [foldl_update_counter _ none hne]
    rfl

/-- What the registry promises: the sum of the increments and the value set last, for the series
that are `asked` for, and a text that is well formed and says just this. -/
structure Faithful (format : NumberFormat ν) (asked : String → Labels → Prop)
    (w : MetricsWorld ν) : Prop where
  getCounter : ∀ name labels, asked name labels →
    w.registry.getCounter name labels = counterTotal w.calls name labels
  getGauge : ∀ name labels, asked name labels →
    w.registry.getGauge name labels = (lastSet w.calls name labels).getD 0
  render : ∃ lines, readText format (w.registry.render format) = some lines ∧ WellFormed lines ∧
    ∀ name labels, valueIn lines name labels = accumulated w.calls name labels

private theorem Refines.faithful (h : Refines w) (format : NumberFormat ν) :
    Faithful format (Asked w) w := by
  refine ⟨fun _ _ => getCounter_eq h,fun _ _ => getGauge_eq h,?_⟩
  have hprinted : ∃ families, Printed format w.listing
      (w.listing.foldl (emitEntry format w.registry.helpText) {}) families :=
    printed_entries (listing_grouped h) (listing_plain h) h.help
  obtain ⟨families,hprinted⟩ := hprinted
  refine ⟨families.flatMap Family.lines,?_,?_,?_⟩
  · rw [render_eq h]
    exact readText_lineTexts hprinted.plain hprinted.lines
  · apply wellFormed_of_samples hprinted.nodup
    rw [hprinted.samples]
    exact listing_pairwise h
  · intro name labels
    rw [valueIn,hprinted.samples]
    exact find_listing h name labels

theorem start_refines : Refines ({} : MetricsWorld ν) :=
  ⟨nofun,nofun,nofun,nofun,rfl,rfl,fun type => by cases type <;> exact .nil⟩

/-- In every run of calls with valid names, as long as nothing has to be escaped, the labels of a
series are written in one order and the series of a metric are created one after the other, the
registry accumulates and renders what it is given. -/
theorem registry_faithful (format : NumberFormat ν) {w : MetricsWorld ν}
    {calls : List (MetricCall ν)} (hrun : run MetricsWorld.step {} calls = some w)
    (halong : Along MetricsWorld.step (fun w c => Admissible w c ∧ Orderly w c) {} calls) :
    Faithful format (Asked w) w := by
  have hrefines : Refines w := by
    apply halong.invariant hrun start_refines
    intro w c t hw hok hstep
    cases hstep
    exact hw.step hok.1 hok.2
  exact hrefines.faithful format

/-- Requests by method and path, and a gauge. -/
def requests : List (MetricCall Nat) :=
  [⟨.counter,"requests",[("method","GET"),("path","/")],1,none⟩,
    ⟨.gauge,"in_flight",[],3,some "Requests in flight"⟩,
    ⟨.counter,"requests",[("method","PUT"),("path","/")],1,none⟩,
    ⟨.counter,"requests",[("method","GET"),("path","/")],2,none⟩]

theorem requests_faithful :
    ∃ w : MetricsWorld Nat, run MetricsWorld.step {} requests = some w ∧
      w.registry.getCounter "requests" [("method","GET"),("path","/")] = 3 ∧
        Faithful .decimal (Asked w) w := by
  have halong : Along MetricsWorld.step (fun w c => Admissible w c ∧ Orderly w c) {} requests := by
    decide
  exact ⟨_,rfl,by decide,registry_faithful .decimal rfl halong⟩

def IsSeries (name : String) (labels : Labels) : Prop :=
  IsMetricName name ∧ ∀ label ∈ labels, IsLabelName label.1

/-- An increment by one. -/
def hit (name : String) (labels : Labels) : MetricCall Nat := ⟨.counter,name,labels,1,none⟩

/-- An increment is not found when its labels are given in the other order. -/
theorem labelOrder_not_faithful :
    ¬ ∀ calls (w : MetricsWorld Nat), run MetricsWorld.step {} calls = some w →
      Along MetricsWorld.step Admissible {} calls → Faithful .decimal IsSeries w := by
  intro h
  have hfaithful := h [hit "requests" [("method","GET"),("path","/")]] _ rfl (by decide)
  have hcounter := hfaithful.getCounter "requests" [("path","/"),("method","GET")]
    ⟨by decide,by decide⟩
  revert hcounter
  decide

theorem quote_not_readable :
    ∃ w : MetricsWorld Nat, run MetricsWorld.step {} [hit "requests" [("path","/\"")]] = some w ∧
      readText .decimal (w.registry.render .decimal) = none :=
  ⟨_,rfl,by decide⟩

theorem interleaved_not_wellFormed :
    ∃ (w : MetricsWorld Nat) (lines : _), run MetricsWorld.step {} [hit "a" [],hit "b" [],
        hit "a" [("path","/")]] = some w ∧
      readText .decimal (w.registry.render .decimal) = some lines ∧ ¬ WellFormed lines := by
  refine ⟨_,_,rfl,rfl,fun h => ?_⟩
  rcases (grouped_concat (l := ["a","b"]) (grouped_of_wellFormed h)).2 with hfresh | hlast
  · exact hfresh (by decide)
  · revert hlast
    decide

end SystemsLab.Metrics
