import Teecryptor.Lib.Rust
import Mathlib.Control.Lawful

/-!
# Splitting a metrics export

`metrics/otlp_split.rs`: an OTLP export of more points than the Telemetry API takes is cut into
requests that each keep to the limit. The protobuf encoding is a parameter, and so are the types of
what the code only copies. Counts are naturals: a body in memory has fewer than `2 ^ 62` points,
and no sum here passes twice their number.
-/

namespace Teecryptor.Otlp

open Rust

/-- The messages that are copied whole. -/
structure Types where
  Resource : Type
  InstrumentationScope : Type
  KeyValue : Type
  NumberDataPoint : Type
  HistogramDataPoint : Type
  ExponentialHistogramDataPoint : Type
  SummaryDataPoint : Type

variable {T : Types}

/-- A metric's points, with what its kind says of them all. -/
inductive Data (T : Types)
  | gauge (dataPoints : List T.NumberDataPoint)
  | sum (dataPoints : List T.NumberDataPoint) (aggregationTemporality : Int32) (isMonotonic : Bool)
  | histogram (dataPoints : List T.HistogramDataPoint) (aggregationTemporality : Int32)
  | exponentialHistogram (dataPoints : List T.ExponentialHistogramDataPoint)
      (aggregationTemporality : Int32)
  | summary (dataPoints : List T.SummaryDataPoint)

structure Metric (T : Types) where
  name : String
  description : String
  unit : String
  metadata : List T.KeyValue
  data : Option (Data T)

structure ScopeMetrics (T : Types) where
  scope : Option T.InstrumentationScope
  metrics : List (Metric T)
  schemaUrl : String

structure ResourceMetrics (T : Types) where
  resource : Option T.Resource
  scopeMetrics : List (ScopeMetrics T)
  schemaUrl : String

structure ExportMetricsServiceRequest (T : Types) where
  resourceMetrics : List (ResourceMetrics T)

def pointCount (m : Metric T) : ℕ :=
  match m.data with
  | some (.gauge d) => d.length
  | some (.sum d _ _) => d.length
  | some (.histogram d _) => d.length
  | some (.exponentialHistogram d _) => d.length
  | some (.summary d) => d.length
  | none => 0

section Slices

variable {ε : Type}

/-- `v[start..stop].to_vec()`. -/
def slice {α : Type} (v : List α) (start stop : ℕ) : Exec ε (List α) :=
  if start ≤ stop ∧ stop ≤ v.length then .ok ((v.drop start).take (stop - start))
  else panic (.expect "range out of bounds")

def sliceData (start stop : ℕ) : Data T → Exec ε (Data T)
  | .gauge d => return .gauge (← slice d start stop)
  | .sum d t mono => return .sum (← slice d start stop) t mono
  | .histogram d t => return .histogram (← slice d start stop) t
  | .exponentialHistogram d t => return .exponentialHistogram (← slice d start stop) t
  | .summary d => return .summary (← slice d start stop)

/-- A copy of `m` with the points from `start` to `stop` alone. -/
def metricSlice (m : Metric T) (start stop : ℕ) : Exec ε (Metric T) :=
  match m.data with
  | some d => do
    let d ← sliceData start stop d
    return { m with data := some d }
  | none => return m

/-- `last_mut().expect(..)`, and what is done with it. -/
def updateLast {α : Type} (l : List α) (f : α → Exec ε α) : Exec ε (List α) :=
  match l.getLast? with
  | none => panic (.expect "just ensured")
  | some a => do
    let a ← f a
    return l.dropLast ++ [a]

end Slices

/-- The requests closed so far, the open one, and which resource and scope of the source its last
shells are of. -/
structure Splitter (T : Types) where
  chunks : List (List UInt8)
  current : ExportMetricsServiceRequest T
  currentPoints : ℕ
  -- `none` is the `usize::MAX` of the source, which is no index
  curRi : Option ℕ
  curSi : Option ℕ

def Splitter.new : Splitter T := ⟨[], ⟨[]⟩, 0, none, none⟩

section Split

variable (encode : ExportMetricsServiceRequest T → List UInt8) {ε : Type}

/-- The open request is closed where the points would not fit. -/
def flush (max points : ℕ) (s : Splitter T) : Splitter T :=
  if s.currentPoints + points > max ∧ s.currentPoints > 0 then
    { chunks := s.chunks ++ [encode s.current], current := ⟨[]⟩, currentPoints := 0, curRi := none,
      curSi := none }
  else s

def openResource (ri : ℕ) (rm : ResourceMetrics T) (s : Splitter T) : Splitter T :=
  if s.curRi ≠ some ri then
    { s with
      current := ⟨s.current.resourceMetrics ++ [⟨rm.resource, [], rm.schemaUrl⟩]⟩
      curRi := some ri
      curSi := none }
  else s

/-- The metric goes under the last resource's last scope, after a new scope where the last is not
the metric's own. -/
def pushMetric (si : ℕ) (sm : ScopeMetrics T) (m : Metric T) (points : ℕ) (s : Splitter T) :
    Exec ε (Splitter T) := do
  let resourceMetrics ← updateLast s.current.resourceMetrics fun curRm => do
    let opened := if s.curSi ≠ some si then curRm.scopeMetrics ++ [⟨sm.scope, [], sm.schemaUrl⟩]
      else curRm.scopeMetrics
    let scopeMetrics ← updateLast opened fun curSm =>
      return { curSm with metrics := curSm.metrics ++ [m] }
    return { curRm with scopeMetrics }
  return { s with
    current := ⟨resourceMetrics⟩
    currentPoints := s.currentPoints + points
    curSi := some si }

/-- What one pass of the inner loop does with the points from `start` to `stop`. -/
def pushSlice (max ri : ℕ) (rm : ResourceMetrics T) (si : ℕ) (sm : ScopeMetrics T) (m : Metric T)
    (start stop : ℕ) (s : Splitter T) : Exec ε (Splitter T) := do
  let points := stop - start
  let s := openResource ri rm (flush encode max points s)
  let piece ← metricSlice m start stop
  pushMetric si sm piece points s

/-- Code with a loop that may not end: `none` when its fuel runs out. -/
abbrev Fueled (ε α : Type) := ExceptT (Abort ε) Option α

def Fueled.of {α : Type} (r : Exec ε α) : Fueled ε α := .mk (some r)

/-- `while start < n`. -/
def sliceLoop (max ri : ℕ) (rm : ResourceMetrics T) (si : ℕ) (sm : ScopeMetrics T) (m : Metric T)
    (n : ℕ) : ℕ → ℕ → Splitter T → Fueled ε (Splitter T)
  | 0, _, _ => .mk none
  | fuel + 1, start, s =>
    if start < n then do
      let stop := min (start + max) n
      let s ← Fueled.of (pushSlice encode max ri rm si sm m start stop s)
      sliceLoop max ri rm si sm m n fuel stop s
    else return s

def splitMetric (max fuel ri : ℕ) (rm : ResourceMetrics T) (si : ℕ) (sm : ScopeMetrics T)
    (s : Splitter T) (m : Metric T) : Fueled ε (Splitter T) :=
  if pointCount m = 0 then return s
  else sliceLoop encode max ri rm si sm m (pointCount m) fuel 0 s

def splitScope (max fuel ri : ℕ) (rm : ResourceMetrics T) (s : Splitter T)
    (scope : ScopeMetrics T × ℕ) : Fueled ε (Splitter T) :=
  scope.1.metrics.foldlM (splitMetric encode max fuel ri rm scope.2 scope.1) s

def splitResource (max fuel : ℕ) (s : Splitter T) (resource : ResourceMetrics T × ℕ) :
    Fueled ε (Splitter T) :=
  resource.1.scopeMetrics.zipIdx.foldlM (splitScope encode max fuel resource.2 resource.1) s

def totalPoints (req : ExportMetricsServiceRequest T) : ℕ :=
  (((req.resourceMetrics.flatMap (·.scopeMetrics)).flatMap (·.metrics)).map pointCount).sum

/-- A serialized request as requests of at most `max` points each. -/
def splitRequest (decode : List UInt8 → Except ε (ExportMetricsServiceRequest T)) (fuel : ℕ)
    (body : List UInt8) (max : ℕ) : Fueled ε (List (List UInt8)) := do
  let req ← Fueled.of (ofExcept (decode body))
  if totalPoints req ≤ max then return [body]
  else do
    let s ← req.resourceMetrics.zipIdx.foldlM (splitResource encode max fuel) Splitter.new
    return if s.currentPoints > 0 then s.chunks ++ [encode s.current] else s.chunks

end Split

end Teecryptor.Otlp
