import Mathlib.Data.List.Basic
import Mathlib.Data.String.Basic
import Mathlib.Tactic.Basic

/-!
# The text exposition format, version 0.0.4

A text is read line by line. The lines of a metric form one group behind a single header, and no
series occurs twice; in a label value and in the text of a `HELP` line, backslashes and line feeds
are escaped, in a label value quotes as well. Timestamps are left out.
-/

namespace SystemsLab

variable {ν : Type}

/-- How numbers are written and read back. -/
structure NumberFormat (ν : Type) where
  write : ν → String
  read : String → Option ν
  read_write : ∀ v, read (write v) = some v
  plain : ∀ v, ∀ c ∈ (write v).toList, c ≠ ' ' ∧ c ≠ '\n'

/-- Natural numbers in decimal. -/
def NumberFormat.decimal : NumberFormat Nat where
  write := Nat.repr
  read text :=
    let digits := text.toList
    if digits ≠ [] ∧ digits.all Char.isDigit then some (Nat.ofDigitChars 10 digits 0) else none
  read_write n := by
    have hdigits : n.repr.toList ≠ [] ∧ n.repr.toList.all Char.isDigit = true := by
      rw [Nat.toList_repr,List.all_eq_true]
      refine ⟨Nat.toDigits_ne_nil,fun c hc => ?_⟩
      exact Nat.isDigit_of_mem_toDigits (by decide) (by decide) hc
    simp only [if_pos hdigits]
    rw [Nat.toList_repr,Nat.ofDigitChars_ten_toDigits]
  plain n c hc := by
    rw [Nat.toList_repr] at hc
    have hdigit := Nat.isDigit_of_mem_toDigits (by decide) (by decide) hc
    constructor <;> rintro rfl <;> revert hdigit <;> decide

/-- Labels and their values, as they are written. -/
abbrev Labels := List (String × String)

inductive ExpositionLine (ν : Type)
  | help (name text : String)
  | type (name kind : String)
  | sample (name : String) (labels : Labels) (value : ν)
  deriving DecidableEq, Repr

namespace Exposition

def isMetricChar (c : Char) : Bool := c.isAlphanum || c = '_' || c = ':'

def isLabelChar (c : Char) : Bool := c.isAlphanum || c = '_'

/-- The characters are allowed, and the first one is no digit. -/
def isIdentifier (allowed : Char → Bool) (cs : List Char) : Bool :=
  cs.head?.any (fun c => !c.isDigit) && cs.all allowed

def IsMetricName (name : String) : Prop := isIdentifier isMetricChar name.toList = true

def IsLabelName (name : String) : Prop := isIdentifier isLabelChar name.toList = true

def readName (cs : List Char) : Option (String × List Char) :=
  let name := cs.takeWhile isMetricChar
  if isIdentifier isMetricChar name then
    some (String.ofList name,cs.dropWhile isMetricChar)
  else none

/-- What has been read of a label. -/
inductive LabelState
  | name (acc : List Char)
  | equals (name : List Char)
  | value (name acc : List Char)
  | escape (name acc : List Char)
  | closed
  deriving DecidableEq, Repr

def unescape (c : Char) : Option Char :=
  if c = '\\' then some '\\'
  else if c = '"' then some '"'
  else if c = 'n' then some '\n'
  else none

/-- Reads labels up to the closing brace. -/
def scanLabels (labels : Labels) : LabelState → List Char → Option (Labels × List Char)
  | _, [] => none
  | .name acc, c::cs =>
    if c = '=' then
      if isIdentifier isLabelChar acc then scanLabels labels (.equals acc) cs else none
    else scanLabels labels (.name (acc ++ [c])) cs
  | .equals name, c::cs => if c = '"' then scanLabels labels (.value name []) cs else none
  | .value name acc, c::cs =>
    if c = '"' then scanLabels (labels ++ [(String.ofList name,String.ofList acc)]) .closed cs
    else if c = '\\' then scanLabels labels (.escape name acc) cs
    else if c = '\n' then none
    else scanLabels labels (.value name (acc ++ [c])) cs
  | .escape name acc, c::cs =>
    match unescape c with
    | some d => scanLabels labels (.value name (acc ++ [d])) cs
    | none => none
  | .closed, c::cs =>
    if c = ',' then scanLabels labels (.name []) cs
    else if c = '}' then some (labels,cs)
    else none

def readLabels : List Char → Option (Labels × List Char)
  | '{' :: cs => scanLabels [] (.name []) cs
  | cs => some ([],cs)

variable (format : NumberFormat ν)

def readSample (cs : List Char) : Option (ExpositionLine ν) := do
  let (name,rest) ← readName cs
  let (labels,rest) ← readLabels rest
  match rest with
  | ' ' :: value =>
    if ' ' ∈ value then none
    else (format.read (String.ofList value)).map (.sample name labels)
  | _ => none

/-- `escaped` if a backslash has just been read. -/
def readHelpText : (escaped : Bool) → List Char → Option (List Char)
  | false, [] => some []
  | true, [] => none
  | false, c::cs =>
    if c = '\\' then readHelpText true cs else (readHelpText false cs).map (c :: ·)
  | true, c::cs =>
    if c = '\\' then (readHelpText false cs).map ('\\' :: ·)
    else if c = 'n' then (readHelpText false cs).map ('\n' :: ·)
    else none

def readHelp (cs : List Char) : Option (ExpositionLine ν) := do
  let (name,rest) ← readName cs
  match rest with
  | [] => some (.help name "")
  | ' ' :: text => (readHelpText false text).map fun text => .help name (String.ofList text)
  | _ => none

def metricKinds : List String := ["counter","gauge","histogram","summary","untyped"]

def readType (cs : List Char) : Option (ExpositionLine ν) := do
  let (name,rest) ← readName cs
  match rest with
  | ' ' :: kind =>
    if String.ofList kind ∈ metricKinds then some (.type name (String.ofList kind)) else none
  | _ => none

/-- A line says nothing if it is blank or a comment. -/
def readLine (cs : List Char) : Option (List (ExpositionLine ν)) :=
  if "# HELP ".toList.isPrefixOf cs then (readHelp (cs.drop 7)).map ([·])
  else if "# TYPE ".toList.isPrefixOf cs then (readType (cs.drop 7)).map ([·])
  else if cs.head?.all fun c => c = '#' then some []
  else (readSample format cs).map ([·])

/-- Every line ends with a line feed. -/
def readText (text : String) : Option (List (ExpositionLine ν)) :=
  let lines := text.toList.splitOn '\n'
  if lines.getLast? = some [] then (lines.dropLast.mapM (readLine format)).map List.flatten
  else none

/-- The lines of a metric. -/
structure Family (ν : Type) where
  name : String
  help : Option String
  kind : String
  samples : List (Labels × ν)

namespace Family

def header (family : Family ν) : List (ExpositionLine ν) :=
  family.help.toList.map (.help family.name) ++ [.type family.name family.kind]

def lines (family : Family ν) : List (ExpositionLine ν) :=
  family.header ++ family.samples.map fun s => .sample family.name s.1 s.2

end Family

/-- The lines of each metric form one group behind a single header, and each series occurs once,
whatever the order of its labels. -/
def WellFormed (lines : List (ExpositionLine ν)) : Prop :=
  ∃ families : List (Family ν), lines = families.flatMap Family.lines ∧
    (families.map Family.name).Nodup ∧
      ∀ family ∈ families, family.samples.Pairwise fun s t => ¬ s.1.Perm t.1

def samples (lines : List (ExpositionLine ν)) : List (String × Labels × ν) :=
  lines.filterMap fun
    | .sample name labels value => some (name,labels,value)
    | _ => none

/-- The value that the lines give to a series. -/
def valueIn (lines : List (ExpositionLine ν)) (name : String) (labels : Labels) : Option ν :=
  ((samples lines).find? fun s => s.1 = name ∧ s.2.1.Perm labels).map fun s => s.2.2

/-- A label value that is written as it is. -/
def IsPlainValue (value : String) : Prop := ∀ c ∈ value.toList, c ≠ '"' ∧ c ≠ '\\' ∧ c ≠ '\n'

def IsPlainHelp (text : String) : Prop := ∀ c ∈ text.toList, c ≠ '\\' ∧ c ≠ '\n'

instance (name : String) : Decidable (IsMetricName name) := inferInstanceAs (Decidable (_ = true))

instance (name : String) : Decidable (IsLabelName name) := inferInstanceAs (Decidable (_ = true))

instance (value : String) : Decidable (IsPlainValue value) :=
  List.decidableBAll (fun c => c ≠ '"' ∧ c ≠ '\\' ∧ c ≠ '\n') value.toList

instance (text : String) : Decidable (IsPlainHelp text) :=
  List.decidableBAll (fun c => c ≠ '\\' ∧ c ≠ '\n') text.toList

theorem IsMetricName.all {name : String} (h : IsMetricName name) :
    ∀ c ∈ name.toList, isMetricChar c = true := by
  rw [IsMetricName,isIdentifier,Bool.and_eq_true,List.all_eq_true] at h
  exact h.2

theorem IsLabelName.all {name : String} (h : IsLabelName name) :
    ∀ c ∈ name.toList, isLabelChar c = true := by
  rw [IsLabelName,isIdentifier,Bool.and_eq_true,List.all_eq_true] at h
  exact h.2

/-- A name ends where a character comes that is not allowed in it. -/
theorem readName_append {name : String} (h : IsMetricName name) {c : Char}
    (hc : isMetricChar c = false) (rest : List Char) :
    readName (name.toList ++ c::rest) = some (name,c::rest) := by
  have hname : isIdentifier isMetricChar name.toList = true := h
  rw [readName,List.takeWhile_append_of_pos h.all,List.dropWhile_append_of_pos h.all,
    List.takeWhile_cons_of_neg (by simp [hc]),List.dropWhile_cons_of_neg (by simp [hc]),
    List.append_nil]
  simp [hname]

theorem scanLabels_name (labels : Labels) {cs : List Char} (hcs : '=' ∉ cs) (acc rest : List Char) :
    scanLabels labels (.name acc) (cs ++ '=' :: rest) =
      if isIdentifier isLabelChar (acc ++ cs) then scanLabels labels (.equals (acc ++ cs)) rest
      else none := by
  induction cs generalizing acc with
  | nil => simp [scanLabels]
  | cons c cs ih =>
    obtain ⟨hc,hcs⟩ := List.ne_and_not_mem_of_not_mem_cons hcs
    rw [List.cons_append,scanLabels,if_neg (Ne.symm hc),ih hcs]
    simp

theorem scanLabels_value (labels : Labels) (name : List Char) {cs : List Char}
    (hcs : ∀ c ∈ cs, c ≠ '"' ∧ c ≠ '\\' ∧ c ≠ '\n') (acc rest : List Char) :
    scanLabels labels (.value name acc) (cs ++ '"' :: rest) =
      scanLabels (labels ++ [(String.ofList name,String.ofList (acc ++ cs))]) .closed rest := by
  induction cs generalizing acc with
  | nil => simp [scanLabels]
  | cons c cs ih =>
    obtain ⟨hquote,hbackslash,hfeed⟩ := hcs c List.mem_cons_self
    rw [List.cons_append,scanLabels,if_neg hquote,if_neg hbackslash,if_neg hfeed,
      ih fun d hd => hcs d (List.mem_cons_of_mem _ hd)]
    simp

/-- A label as it is written. -/
def labelText (label : String × String) : List Char :=
  label.1.toList ++ '=' :: '"' :: label.2.toList ++ ['"']

structure IsPlainLabel (label : String × String) : Prop where
  name : IsLabelName label.1
  value : IsPlainValue label.2

theorem scanLabels_label (labels : Labels) {label : String × String} (h : IsPlainLabel label)
    (rest : List Char) :
    scanLabels labels (.name []) (labelText label ++ rest) =
      scanLabels (labels ++ [label]) .closed rest := by
  have hequals : '=' ∉ label.1.toList := by
    intro hmem
    have hallowed := h.name.all _ hmem
    revert hallowed
    decide
  have hname : isIdentifier isLabelChar label.1.toList = true := h.name
  have htext : labelText label ++ rest =
      label.1.toList ++ '=' :: ('"' :: (label.2.toList ++ '"' :: rest)) := by
    simp [labelText]
  rw [htext,scanLabels_name labels hequals,List.nil_append,if_pos hname,scanLabels,if_pos rfl,
    scanLabels_value labels _ h.value,List.nil_append,String.ofList_toList,String.ofList_toList]

theorem scanLabels_intercalate {more : Labels} (hmore : ∀ label ∈ more, IsPlainLabel label)
    (hne : more ≠ []) (labels : Labels) (rest : List Char) :
    scanLabels labels (.name []) ([','].intercalate (more.map labelText) ++ '}' :: rest) =
      some (labels ++ more,rest) := by
  induction more generalizing labels with
  | nil => exact absurd rfl hne
  | cons label more ih =>
    have hlabel := hmore label List.mem_cons_self
    cases more with
    | nil =>
      rw [List.map_singleton,List.intercalate_singleton,scanLabels_label labels hlabel]
      simp [scanLabels]
    | cons next more =>
      have htext : [','].intercalate ((label::next::more).map labelText) ++ '}' :: rest =
          labelText label ++ ',' :: ([','].intercalate ((next::more).map labelText) ++ '}' :: rest) := by
        simp [List.intercalate_cons_cons]
      rw [htext,scanLabels_label labels hlabel,scanLabels,if_pos rfl,
        ih (fun l hl => hmore l (List.mem_cons_of_mem _ hl)) (by simp),List.append_assoc]
      rfl

/-- A series as it is written: its name, and its labels in braces if it has any. -/
def seriesText (name : String) (labels : Labels) : List Char :=
  if labels = [] then name.toList
  else name.toList ++ '{' :: ([','].intercalate (labels.map labelText) ++ ['}'])

structure IsPlainSeries (name : String) (labels : Labels) : Prop where
  name : IsMetricName name
  labels : ∀ label ∈ labels, IsPlainLabel label

variable {format} {name : String} {labels : Labels}

theorem readName_seriesText (h : IsPlainSeries name labels) (rest : List Char) :
    ∃ tail, readName (seriesText name labels ++ ' ' :: rest) = some (name,tail) ∧
      readLabels tail = some (labels,' ' :: rest) := by
  rw [seriesText]
  split
  · rename_i hnil
    subst hnil
    exact ⟨' ' :: rest,readName_append h.name (by decide) rest,rfl⟩
  · rename_i hne
    rw [List.append_assoc,List.cons_append,List.append_assoc,List.singleton_append]
    refine ⟨_,readName_append h.name (by decide) _,?_⟩
    rw [readLabels,scanLabels_intercalate h.labels hne,List.nil_append]

theorem seriesText_injective {name' : String} {labels' : Labels} (h : IsPlainSeries name labels)
    (h' : IsPlainSeries name' labels') (htext : seriesText name labels = seriesText name' labels') :
    name = name' ∧ labels = labels' := by
  obtain ⟨tail,hname,hlabels⟩ := readName_seriesText h []
  obtain ⟨tail',hname',hlabels'⟩ := readName_seriesText h' []
  rw [htext,hname'] at hname
  cases hname
  rw [hlabels'] at hlabels
  cases hlabels
  exact ⟨rfl,rfl⟩

theorem readLine_of_head {c : Char} (hc : c ≠ '#') (cs : List Char) :
    readLine format (c::cs) = (readSample format (c::cs)).map ([·]) := by
  have hhelp : "# HELP ".toList.isPrefixOf (c::cs) = false := by
    simp [List.isPrefixOf,Ne.symm hc]
  have htype : "# TYPE ".toList.isPrefixOf (c::cs) = false := by
    simp [List.isPrefixOf,Ne.symm hc]
  have hcomment : (c::cs).head?.all (fun c => c = '#') = false := by simp [hc]
  rw [readLine,hhelp,htype,hcomment]
  rfl

theorem seriesText_head (h : IsMetricName name) (labels : Labels) (rest : List Char) :
    ∃ c cs, c ≠ '#' ∧ seriesText name labels ++ rest = c::cs := by
  cases hchars : name.toList with
  | nil => simp [IsMetricName,isIdentifier,hchars] at h
  | cons c cs =>
    have hc : c ≠ '#' := by
      rintro rfl
      have hallowed := h.all '#' (by simp [hchars])
      revert hallowed
      decide
    rw [seriesText]
    split
    · exact ⟨c,cs ++ rest,hc,by rw [hchars]; rfl⟩
    · exact ⟨c,_,hc,by rw [hchars]; rfl⟩

theorem readLine_sample (h : IsPlainSeries name labels) (value : ν) :
    readLine format (seriesText name labels ++ ' ' :: (format.write value).toList) =
      some [.sample name labels value] := by
  obtain ⟨tail,hname,hlabels⟩ := readName_seriesText h (format.write value).toList
  have hblank : ' ' ∉ (format.write value).toList := fun hmem => (format.plain value _ hmem).1 rfl
  have hsample : readSample format (seriesText name labels ++ ' ' :: (format.write value).toList) =
      some (.sample name labels value) := by
    simp only [readSample,hname,hlabels,Option.bind_eq_bind,Option.bind_some,if_neg hblank,
      String.ofList_toList,format.read_write,Option.map_some]
  obtain ⟨c,cs,hc,htext⟩ :=
    seriesText_head h.name labels (' ' :: (format.write value).toList)
  rw [htext] at hsample ⊢
  rw [readLine_of_head hc,hsample]
  rfl

theorem readHelpText_plain {cs : List Char} (hcs : ∀ c ∈ cs, c ≠ '\\' ∧ c ≠ '\n') :
    readHelpText false cs = some cs := by
  induction cs with
  | nil => rfl
  | cons c cs ih =>
    rw [readHelpText,if_neg (hcs c List.mem_cons_self).1,
      ih fun d hd => hcs d (List.mem_cons_of_mem _ hd)]
    rfl

theorem readLine_help (h : IsMetricName name) {text : String} (htext : IsPlainHelp text) :
    readLine format ("# HELP ".toList ++ (name.toList ++ ' ' :: text.toList)) =
      some [.help name text] := by
  have hprefix : "# HELP ".toList.isPrefixOf
      ("# HELP ".toList ++ (name.toList ++ ' ' :: text.toList)) = true :=
    List.isPrefixOf_iff_prefix.mpr (List.prefix_append _ _)
  have hdrop : ("# HELP ".toList ++ (name.toList ++ ' ' :: text.toList)).drop 7 =
      name.toList ++ ' ' :: text.toList := List.drop_left' rfl
  have hread : readHelp (name.toList ++ ' ' :: text.toList) =
      some (.help name text : ExpositionLine ν) := by
    rw [readHelp,readName_append h (by decide)]
    simp only [Option.bind_eq_bind,Option.bind_some,readHelpText_plain htext,Option.map_some,
      String.ofList_toList]
  rw [readLine,if_pos hprefix,hdrop,hread]
  rfl

theorem readLine_type (h : IsMetricName name) {kind : String} (hkind : kind ∈ metricKinds) :
    readLine format ("# TYPE ".toList ++ (name.toList ++ ' ' :: kind.toList)) =
      some [.type name kind] := by
  have hother : "# HELP ".toList.isPrefixOf
      ("# TYPE ".toList ++ (name.toList ++ ' ' :: kind.toList)) = false := rfl
  have hprefix : "# TYPE ".toList.isPrefixOf
      ("# TYPE ".toList ++ (name.toList ++ ' ' :: kind.toList)) = true :=
    List.isPrefixOf_iff_prefix.mpr (List.prefix_append _ _)
  have hdrop : ("# TYPE ".toList ++ (name.toList ++ ' ' :: kind.toList)).drop 7 =
      name.toList ++ ' ' :: kind.toList := List.drop_left' rfl
  have hread : readType (name.toList ++ ' ' :: kind.toList) =
      some (.type name kind : ExpositionLine ν) := by
    rw [readType,readName_append h (by decide)]
    simp only [Option.bind_eq_bind,Option.bind_some,String.ofList_toList,if_pos hkind]
  rw [readLine,hother,if_neg Bool.false_ne_true,if_pos hprefix,hdrop,hread]
  rfl

theorem readText_lines {texts : List String} (hfeed : ∀ text ∈ texts, '\n' ∉ text.toList) :
    readText format ("\n".intercalate texts ++ "\n") =
      ((texts.map String.toList).mapM (readLine format)).map List.flatten := by
  by_cases hnil : texts = []
  · subst hnil
    rfl
  have htext : "\n".intercalate texts ++ "\n" = "\n".intercalate (texts ++ [""]) := by
    rw [String.intercalate_append_of_ne_nil hnil (List.cons_ne_nil _ _),
      String.intercalate_singleton,String.append_empty]
  have hsplit : ("\n".intercalate texts ++ "\n").toList.splitOn '\n' =
      texts.map String.toList ++ [[]] := by
    rw [htext,String.toList_intercalate,List.map_append,List.map_singleton]
    apply List.splitOn_intercalate
    · intro cs hcs
      rcases List.mem_append.mp hcs with htexts | hlast
      · obtain ⟨text,htext,rfl⟩ := List.mem_map.mp htexts
        exact hfeed text htext
      · rw [List.mem_singleton.mp hlast]
        decide
    · simp
  rw [readText,hsplit,List.getLast?_concat,if_pos rfl,List.dropLast_concat]

/-- A line as it is written. -/
def lineText (format : NumberFormat ν) : ExpositionLine ν → List Char
  | .help name text => "# HELP ".toList ++ (name.toList ++ ' ' :: text.toList)
  | .type name kind => "# TYPE ".toList ++ (name.toList ++ ' ' :: kind.toList)
  | .sample name labels value => seriesText name labels ++ ' ' :: (format.write value).toList

def IsPlainLine : ExpositionLine ν → Prop
  | .help name text => IsMetricName name ∧ IsPlainHelp text
  | .type name kind => IsMetricName name ∧ kind ∈ metricKinds
  | .sample name labels _ => IsPlainSeries name labels

theorem readLine_lineText {line : ExpositionLine ν} (h : IsPlainLine line) :
    readLine format (lineText format line) = some [line] := by
  cases line with
  | help name text => exact readLine_help h.1 h.2
  | type name kind => exact readLine_type h.1 h.2
  | sample name labels value => exact readLine_sample h value

theorem IsMetricName.one_line (h : IsMetricName name) : '\n' ∉ name.toList := by
  intro hmem
  have hallowed := h.all _ hmem
  revert hallowed
  decide

theorem mem_intercalate {texts : List (List Char)} {c d : Char}
    (h : c ∈ [d].intercalate texts) : c = d ∨ ∃ text ∈ texts, c ∈ text := by
  induction texts with
  | nil => cases h
  | cons text texts ih =>
    cases texts with
    | nil =>
      rw [List.intercalate_singleton] at h
      exact .inr ⟨text,List.mem_cons_self,h⟩
    | cons next texts =>
      rw [List.intercalate_cons_cons,List.mem_append,List.mem_append,List.mem_singleton] at h
      rcases h with (h | h) | h
      · exact .inr ⟨text,List.mem_cons_self,h⟩
      · exact .inl h
      · exact (ih h).imp_right fun ⟨t,ht,hc⟩ => ⟨t,List.mem_cons_of_mem _ ht,hc⟩

theorem IsPlainLabel.one_line {label : String × String} (h : IsPlainLabel label) :
    '\n' ∉ labelText label := by
  intro hmem
  simp only [labelText,List.mem_append,List.mem_cons,List.not_mem_nil,or_false] at hmem
  rcases hmem with (hname | heq | hquote | hvalue) | hquote
  · have hallowed := h.name.all _ hname
    revert hallowed
    decide
  · cases heq
  · cases hquote
  · exact (h.value _ hvalue).2.2 rfl
  · cases hquote

theorem IsPlainSeries.one_line (h : IsPlainSeries name labels) : '\n' ∉ seriesText name labels := by
  rw [seriesText]
  split
  · exact h.name.one_line
  · intro hmem
    rcases List.mem_append.mp hmem with hname | hbraces
    · exact h.name.one_line hname
    · rcases List.mem_cons.mp hbraces with heq | hlabels
      · cases heq
      · rcases List.mem_append.mp hlabels with hlabels | hclose
        · rcases mem_intercalate hlabels with heq | ⟨text,htext,hmem⟩
          · cases heq
          · obtain ⟨label,hlabel,rfl⟩ := List.mem_map.mp htext
            exact (h.labels label hlabel).one_line hmem
        · cases List.mem_singleton.mp hclose

theorem lineText_one_line {line : ExpositionLine ν} (h : IsPlainLine line) :
    '\n' ∉ lineText format line := by
  intro hmem
  cases line with
  | help name text =>
    rcases List.mem_append.mp hmem with hprefix | hmem
    · revert hprefix
      decide
    · rcases List.mem_append.mp hmem with hname | hmem
      · exact h.1.one_line hname
      · rcases List.mem_cons.mp hmem with heq | htext
        · cases heq
        · exact (h.2 _ htext).2 rfl
  | type name kind =>
    rcases List.mem_append.mp hmem with hprefix | hmem
    · revert hprefix
      decide
    · rcases List.mem_append.mp hmem with hname | hmem
      · exact h.1.one_line hname
      · have hkinds : ∀ kind ∈ metricKinds, '\n' ∉ ' ' :: kind.toList := by decide
        exact hkinds kind h.2 hmem
  | sample name labels value =>
    rcases List.mem_append.mp hmem with hseries | hmem
    · exact IsPlainSeries.one_line h hseries
    · rcases List.mem_cons.mp hmem with heq | hvalue
      · cases heq
      · exact (format.plain value _ hvalue).2 rfl

theorem readLines_lineTexts {lines : List (ExpositionLine ν)}
    (hplain : ∀ line ∈ lines, IsPlainLine line) :
    (lines.map (lineText format)).mapM (readLine format) = some (lines.map ([·])) := by
  induction lines with
  | nil => rfl
  | cons line lines ih =>
    rw [List.map_cons,List.mapM_cons,readLine_lineText (hplain line List.mem_cons_self),
      ih fun l hl => hplain l (List.mem_cons_of_mem _ hl)]
    rfl

/-- What is written line by line, and needs no escapes, is read back. -/
theorem readText_lineTexts {lines : List (ExpositionLine ν)} {texts : List String}
    (hplain : ∀ line ∈ lines, IsPlainLine line)
    (htexts : texts.map String.toList = lines.map (lineText format)) :
    readText format ("\n".intercalate texts ++ "\n") = some lines := by
  have hfeed : ∀ text ∈ texts, '\n' ∉ text.toList := by
    intro text htext
    have hmem : text.toList ∈ lines.map (lineText format) := htexts ▸ List.mem_map_of_mem htext
    obtain ⟨line,hline,heq⟩ := List.mem_map.mp hmem
    rw [← heq]
    exact lineText_one_line (hplain line hline)
  have hflat : (lines.map ([·])).flatten = lines := List.flatMap_singleton' lines
  rw [readText_lines hfeed,htexts,readLines_lineTexts hplain,Option.map_some,hflat]

theorem samples_append (lines more : List (ExpositionLine ν)) :
    samples (lines ++ more) = samples lines ++ samples more :=
  List.filterMap_append

theorem samples_family (family : Family ν) :
    samples family.lines = family.samples.map fun s => (family.name,s.1,s.2) := by
  have hheader : samples family.header = [] := by
    cases hhelp : family.help <;> simp [samples,Family.header,hhelp]
  have hbody : ∀ rows : List (Labels × ν),
      samples (rows.map fun s => .sample family.name s.1 s.2) =
        rows.map fun s => (family.name,s.1,s.2) := by
    intro rows
    induction rows with
    | nil => rfl
    | cons row rows ih => exact congrArg _ ih
  rw [Family.lines,samples_append,hheader,List.nil_append,hbody]

theorem name_of_mem_samples {families : List (Family ν)} {s : String × Labels × ν}
    (h : s ∈ samples (families.flatMap Family.lines)) : s.1 ∈ families.map Family.name := by
  obtain ⟨line,hline,hs⟩ := List.mem_filterMap.mp h
  obtain ⟨family,hfamily,hline⟩ := List.mem_flatMap.mp hline
  have hmem : s ∈ samples family.lines := List.mem_filterMap.mpr ⟨line,hline,hs⟩
  rw [samples_family] at hmem
  obtain ⟨row,_,rfl⟩ := List.mem_map.mp hmem
  exact List.mem_map_of_mem hfamily

theorem samples_family_sublist {families : List (Family ν)} {family : Family ν}
    (h : family ∈ families) :
    (family.samples.map fun s => (family.name,s.1,s.2)).Sublist
      (samples (families.flatMap Family.lines)) := by
  obtain ⟨before,after,rfl⟩ := List.append_of_mem h
  rw [List.flatMap_append,List.flatMap_cons,samples_append,samples_append,samples_family]
  exact (List.sublist_append_left _ _).trans (List.sublist_append_right _ _)

/-- Families of different names are well formed if no series occurs twice. -/
theorem wellFormed_of_samples {families : List (Family ν)}
    (hnames : (families.map Family.name).Nodup)
    (hsamples : (samples (families.flatMap Family.lines)).Pairwise
      fun s t => ¬ (s.1 = t.1 ∧ s.2.1.Perm t.2.1)) :
    WellFormed (families.flatMap Family.lines) := by
  refine ⟨families,rfl,hnames,fun family hfamily => ?_⟩
  have hown := hsamples.sublist (samples_family_sublist hfamily)
  rw [List.pairwise_map] at hown
  exact hown.imp fun hst hperm => hst ⟨rfl,hperm⟩

end Exposition

end SystemsLab
