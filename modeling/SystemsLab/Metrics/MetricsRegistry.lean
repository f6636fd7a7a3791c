import SystemsLab.Framework.Exposition
import SystemsLab.Framework.InsertionMap
import SystemsLab.Framework.Transition

/-!
# `MetricsRegistry`

Counters and gauges, each series under a string that is made from its name and its labels as they
are written. Labels come in the order of `Object.entries`; numbers are whatever can be added and
written.
-/

namespace SystemsLab.Metrics

variable {ν : Type}

inductive MetricType
  | counter
  | gauge
  deriving DecidableEq, Repr

def MetricType.text : MetricType → String
  | counter => "counter"
  | gauge => "gauge"

structure MetricsRegistry (ν : Type) where
  counters : InsertionMap String ν := []
  gauges : InsertionMap String ν := []
  helpText : InsertionMap String String := []

namespace MetricsRegistry

/-- `${k}="${v}"`. -/
def labelPair (label : String × String) : String := label.1 ++ "=\"" ++ label.2 ++ "\""

/-- `name`, or `${name}{${labelStr}}`. -/
def key (name : String) (labels : Labels) : String :=
  if labels = [] then name
  else name ++ "\x7b" ++ ",".intercalate (labels.map labelPair) ++ "\x7d"

/-- `if (help) this.helpText.set(name, help)`. -/
def setHelp (r : MetricsRegistry ν) (name : String) (help : Option String) : MetricsRegistry ν :=
  match help with
  | some text => if text ≠ "" then { r with helpText := r.helpText.set name text } else r
  | none => r

@[simp] theorem setHelp_counters (r : MetricsRegistry ν) (name : String) (help : Option String) :
    (r.setHelp name help).counters = r.counters := by
  cases help with
  | none => rfl
  | some text =>
    simp only [setHelp]
    split <;> rfl

@[simp] theorem setHelp_gauges (r : MetricsRegistry ν) (name : String) (help : Option String) :
    (r.setHelp name help).gauges = r.gauges := by
  cases help with
  | none => rfl
  | some text =>
    simp only [setHelp]
    split <;> rfl

def incrementCounter [Zero ν] [Add ν] (r : MetricsRegistry ν) (name : String) (labels : Labels)
    (by_ : ν) (help : Option String) : MetricsRegistry ν :=
  let r := r.setHelp name help
  let k := key name labels
  { r with counters := r.counters.set k ((r.counters.get k).getD 0 + by_) }

def setGauge (r : MetricsRegistry ν) (name : String) (value : ν) (labels : Labels)
    (help : Option String) : MetricsRegistry ν :=
  let r := r.setHelp name help
  { r with gauges := r.gauges.set (key name labels) value }

def getCounter [Zero ν] (r : MetricsRegistry ν) (name : String) (labels : Labels) : ν :=
  (r.counters.get (key name labels)).getD 0

def getGauge [Zero ν] (r : MetricsRegistry ν) (name : String) (labels : Labels) : ν :=
  (r.gauges.get (key name labels)).getD 0

/-- `key.split("{")[0]`. -/
def baseName (key : String) : String := String.ofList (key.toList.takeWhile fun c => c ≠ '{')

/-- The lines and `seenHelp` while `render` goes through a map. -/
structure Rendering where
  lines : List String := []
  seenHelp : List String := []
  deriving DecidableEq, Repr

def emit (format : NumberFormat ν) (helpText : InsertionMap String String) (type : MetricType)
    (rendering : Rendering) (entry : String × ν) : Rendering :=
  let name := baseName entry.1
  let sample := entry.1 ++ " " ++ format.write entry.2
  if name ∈ rendering.seenHelp then { rendering with lines := rendering.lines ++ [sample] }
  else
    let help := (helpText.get name).toList.map fun help => "# HELP " ++ name ++ " " ++ help
    { lines := rendering.lines ++ help ++ ["# TYPE " ++ name ++ " " ++ type.text] ++ [sample]
      seenHelp := rendering.seenHelp ++ [name] }

def render (format : NumberFormat ν) (r : MetricsRegistry ν) : String :=
  let counters := r.counters.foldl (emit format r.helpText .counter) {}
  let rendering := r.gauges.foldl (emit format r.helpText .gauge) counters
  "\n".intercalate rendering.lines ++ "\n"

end MetricsRegistry

/-- A call of `incrementCounter` or of `setGauge`. -/
structure MetricCall (ν : Type) where
  type : MetricType
  name : String
  labels : Labels
  value : ν
  help : Option String
  deriving DecidableEq, Repr

/-- The registry, and the calls that were made. -/
structure MetricsWorld (ν : Type) where
  registry : MetricsRegistry ν := {}
  calls : List (MetricCall ν) := []

def MetricsRegistry.record [Zero ν] [Add ν] (r : MetricsRegistry ν) (call : MetricCall ν) :
    MetricsRegistry ν :=
  match call.type with
  | .counter => r.incrementCounter call.name call.labels call.value call.help
  | .gauge => r.setGauge call.name call.value call.labels call.help

def MetricsWorld.step [Zero ν] [Add ν] (w : MetricsWorld ν) (call : MetricCall ν) :
    Option (MetricsWorld ν) :=
  some ⟨w.registry.record call,w.calls ++ [call]⟩

end SystemsLab.Metrics
