import Teecryptor.Lib.Packing
import Teecryptor.Otlp
import Mathlib.Algebra.Order.BigOperators.Group.List
import Mathlib.Logic.Equiv.List

/-!
# What splitting an export keeps

A request is read as its rows: each data point with the resource, the scope and the metric it is
of. Splitting deals the rows out in order into requests of at most `max`, and the cursors always
point at the source of the open shells, so a row is never dealt out under another's.
-/

namespace Teecryptor.Otlp

open Packing Rust

variable {T : Types}

/-! ## A request as its rows -/

inductive Point (T : Types)
  | number (p : T.NumberDataPoint)
  | histogram (p : T.HistogramDataPoint)
  | exponentialHistogram (p : T.ExponentialHistogramDataPoint)
  | summary (p : T.SummaryDataPoint)

def Data.points : Data T → List (Point T)
  | .gauge d => d.map .number
  | .sum d _ _ => d.map .number
  | .histogram d _ => d.map .histogram
  | .exponentialHistogram d _ => d.map .exponentialHistogram
  | .summary d => d.map .summary

/-- The kind and its own fields, without the points. -/
def Data.shell : Data T → Data T
  | .gauge _ => .gauge []
  | .sum _ t mono => .sum [] t mono
  | .histogram _ t => .histogram [] t
  | .exponentialHistogram _ t => .exponentialHistogram [] t
  | .summary _ => .summary []

def Metric.points (m : Metric T) : List (Point T) := (m.data.map Data.points).getD []

/-- The metric's fields other than its points. -/
def Metric.shell (m : Metric T) : Metric T := { m with data := m.data.map Data.shell }

/-- One data point, and where the request has it. -/
structure Row (T : Types) where
  resource : Option T.Resource
  resourceUrl : String
  scope : Option T.InstrumentationScope
  scopeUrl : String
  metric : Metric T
  point : Point T

def metricRows (rm : ResourceMetrics T) (sm : ScopeMetrics T) (m : Metric T) : List (Row T) :=
  m.points.map (⟨rm.resource, rm.schemaUrl, sm.scope, sm.schemaUrl, m.shell, ·⟩)

def scopeRows (rm : ResourceMetrics T) (sm : ScopeMetrics T) : List (Row T) :=
  sm.metrics.flatMap (metricRows rm sm)

def resourceRows (rm : ResourceMetrics T) : List (Row T) :=
  rm.scopeMetrics.flatMap (scopeRows rm)

/-- Every point of a request, in order, under its resource, scope and metric. -/
def rows (req : ExportMetricsServiceRequest T) : List (Row T) :=
  req.resourceMetrics.flatMap resourceRows

@[simp] theorem length_points (m : Metric T) : m.points.length = pointCount m := by
  unfold Metric.points pointCount
  rcases m.data with _ | (d | d | d | d | d) <;> simp [Data.points]

theorem length_metricRows (rm : ResourceMetrics T) (sm : ScopeMetrics T) (m : Metric T) :
    (metricRows rm sm m).length = pointCount m := by
  simp [metricRows]

/-- A request's rows are its points, metric after metric. -/
theorem map_point_rows (req : ExportMetricsServiceRequest T) : (rows req).map Row.point
    = ((req.resourceMetrics.flatMap (·.scopeMetrics)).flatMap (·.metrics)).flatMap
      Metric.points := by
  have hmetric : ∀ (rm : ResourceMetrics T) (sm : ScopeMetrics T) (m : Metric T),
      (metricRows rm sm m).map Row.point = m.points := by
    intro rm sm m
    simp [metricRows, Function.comp_def]
  simp only [rows, resourceRows, scopeRows, List.map_flatMap, hmetric, List.flatMap_assoc]

theorem totalPoints_eq (req : ExportMetricsServiceRequest T) :
    totalPoints req = (rows req).length := by
  rw [← List.length_map Row.point, map_point_rows, List.length_flatMap]
  simp only [length_points]
  rfl

/-! ## Slices of a metric -/

theorem slice_eq {ε α : Type} {v : List α} {start stop : ℕ} (h : start ≤ stop)
    (hl : stop ≤ v.length) :
    (slice v start stop : Exec ε (List α)) = .ok ((v.drop start).take (stop - start)) :=
  if_pos ⟨h, hl⟩

theorem sliceData_eq {ε : Type} (d : Data T) {start stop : ℕ} (h : start ≤ stop)
    (hl : stop ≤ d.points.length) : ∃ d' : Data T,
      (sliceData start stop d : Exec ε (Data T)) = .ok d' ∧ d'.shell = d.shell
      ∧ d'.points = (d.points.drop start).take (stop - start) := by
  rcases d with d | ⟨d, t, mono⟩ | ⟨d, t⟩ | ⟨d, t⟩ | d <;>
    simp only [Data.points, List.length_map] at hl <;>
    simp only [sliceData, slice_eq h hl, ok_bind]
  all_goals
    refine ⟨_, rfl, rfl, ?_⟩
    simp [Data.points, List.map_drop, List.map_take]

/-- A slice is the metric with that stretch of its points. -/
theorem metricSlice_eq {ε : Type} (m : Metric T) {start stop : ℕ} (h : start ≤ stop)
    (hl : stop ≤ pointCount m) : ∃ m' : Metric T,
      (metricSlice m start stop : Exec ε (Metric T)) = .ok m' ∧ m'.shell = m.shell
      ∧ m'.points = (m.points.drop start).take (stop - start) := by
  rw [← length_points, Metric.points] at hl
  unfold metricSlice
  rcases hd : m.data with _ | d
  · exact ⟨m, rfl, rfl, by simp [Metric.points, hd]⟩
  rw [hd] at hl
  obtain ⟨d', hd', hshell, hpoints⟩ := @sliceData_eq T ε d _ _ h hl
  refine ⟨{ m with data := some d' }, ?_, ?_, ?_⟩
  · simp only [hd', ok_bind]
    rfl
  · simp [Metric.shell, hd, hshell]
  · simp [Metric.points, hd, hpoints]

/-- The rows of a slice. -/
theorem metricRows_slice {rm : ResourceMetrics T} {sm : ScopeMetrics T} {m m' : Metric T}
    {start stop : ℕ} (hs : m'.shell = m.shell)
    (hp : m'.points = (m.points.drop start).take (stop - start)) :
    metricRows rm sm m' = ((metricRows rm sm m).drop start).take (stop - start) := by
  simp only [metricRows, hs, hp, List.map_drop, List.map_take]

/-- Rows carry nothing of a resource and a scope but their shells. -/
theorem metricRows_congr {rm rm' : ResourceMetrics T} {sm sm' : ScopeMetrics T}
    (hr : rm'.resource = rm.resource) (hru : rm'.schemaUrl = rm.schemaUrl)
    (hs : sm'.scope = sm.scope) (hsu : sm'.schemaUrl = sm.schemaUrl) (m : Metric T) :
    metricRows rm' sm' m = metricRows rm sm m := by
  simp only [metricRows, hr, hru, hs, hsu]

/-! ## The invariant -/

/-- The last scope of the open resource has the shell of the source's scope `si`. -/
def ScopeOpen (rm curRm : ResourceMetrics T) (si : ℕ) : Prop :=
  ∃ sm pre curSm, rm.scopeMetrics[si]? = some sm ∧ curRm.scopeMetrics = pre ++ [curSm]
    ∧ curSm.scope = sm.scope ∧ curSm.schemaUrl = sm.schemaUrl

/-- The last resource of the open request has the shell of the source's resource `ri`. -/
def ResourceOpen (src : List (ResourceMetrics T)) (current : ExportMetricsServiceRequest T)
    (ri : ℕ) (rm curRm : ResourceMetrics T) : Prop :=
  src[ri]? = some rm ∧ (∃ pre, current.resourceMetrics = pre ++ [curRm])
    ∧ curRm.resource = rm.resource ∧ curRm.schemaUrl = rm.schemaUrl

/-- A cursor that is set points at the source of the open shell. -/
def Mirrors (src : List (ResourceMetrics T)) (s : Splitter T) : Prop :=
  ∀ ri, s.curRi = some ri → ∃ rm curRm, ResourceOpen src s.current ri rm curRm
    ∧ ∀ si, s.curSi = some si → ScopeOpen rm curRm si

variable {encode : ExportMetricsServiceRequest T → List UInt8} {ε : Type} {max : ℕ}
  {src : List (ResourceMetrics T)}

/-- The closed requests and the open one pack the rows dealt out so far. -/
structure Splitting (encode : ExportMetricsServiceRequest T → List UInt8) (max : ℕ)
    (src : List (ResourceMetrics T)) (s : Splitter T) (done : List (Row T)) : Prop where
  packed : ∃ reqs : List (ExportMetricsServiceRequest T),
    s.chunks = reqs.map encode ∧ Packed max (reqs.map rows) (rows s.current) done
  count : s.currentPoints = (rows s.current).length
  mirrors : Mirrors src s

theorem splitting_new : Splitting encode max src Splitter.new [] where
  packed := ⟨[], rfl, Packed.nil max⟩
  count := rfl
  mirrors := fun ri h => by cases h

theorem splitting_flush {s : Splitter T} {done : List (Row T)} {points : ℕ}
    (h : Splitting encode max src s done) (hp : points ≤ max) :
    Splitting encode max src (flush encode max points s) done
      ∧ (flush encode max points s).currentPoints + points ≤ max := by
  obtain ⟨⟨reqs, hchunks, hpacked⟩, hcount, hmirrors⟩ := h
  unfold flush
  split_ifs with hfull
  · have hne : rows s.current ≠ [] := by
      rw [← List.length_pos_iff_ne_nil, ← hcount]
      exact hfull.2
    refine ⟨⟨⟨reqs ++ [s.current], by simp [hchunks], ?_⟩, rfl, fun ri h => by cases h⟩, ?_⟩
    · rw [List.map_append]
      exact hpacked.close hne
    · simpa using hp
  · refine ⟨⟨⟨reqs, hchunks, hpacked⟩, hcount, hmirrors⟩, ?_⟩
    omega

theorem splitting_openResource {s : Splitter T} {done : List (Row T)} {ri : ℕ}
    {rm : ResourceMetrics T} (h : Splitting encode max src s done) (hri : src[ri]? = some rm) :
    Splitting encode max src (openResource ri rm s) done
      ∧ (openResource ri rm s).curRi = some ri
      ∧ (openResource ri rm s).currentPoints = s.currentPoints := by
  unfold openResource
  split_ifs with hcur
  swap
  · exact ⟨h, not_not.1 hcur, rfl⟩
  have hrows : rows ⟨s.current.resourceMetrics ++ [⟨rm.resource, [], rm.schemaUrl⟩]⟩
      = rows s.current := by
    simp [rows, resourceRows]
  refine ⟨⟨?_, ?_, ?_⟩, rfl, rfl⟩
  · simpa only [hrows] using h.packed
  · simpa only [hrows] using h.count
  · intro ri' hri'
    cases hri'
    exact ⟨rm, _, ⟨hri, ⟨_, rfl⟩, rfl, rfl⟩, fun si hsi => by cases hsi⟩

theorem updateLast_append {α : Type} (l : List α) (a b : α) {f : α → Exec ε α}
    (hf : f a = .ok b) : updateLast (l ++ [a]) f = .ok (l ++ [b]) := by
  simp only [updateLast, List.getLast?_concat, hf, ok_bind, List.dropLast_concat]
  rfl

/-- After the scope is looked for, the last one is the metric's own, and no row has moved. -/
theorem opened_scope {rm curRm : ResourceMetrics T} {sm : ScopeMetrics T} {si : ℕ}
    {curSi : Option ℕ} (hsm : rm.scopeMetrics[si]? = some sm)
    (hopen : ∀ i, curSi = some i → ScopeOpen rm curRm i) :
    ∃ pre curSm, (if curSi ≠ some si then curRm.scopeMetrics ++ [⟨sm.scope, [], sm.schemaUrl⟩]
        else curRm.scopeMetrics) = pre ++ [curSm]
      ∧ curSm.scope = sm.scope ∧ curSm.schemaUrl = sm.schemaUrl
      ∧ resourceRows curRm = pre.flatMap (scopeRows curRm) ++ scopeRows curRm curSm := by
  by_cases hcur : curSi = some si
  · obtain ⟨sm', pre, curSm, hsm', hpre, hs, hsu⟩ := hopen si hcur
    obtain rfl : sm = sm' := Option.some.inj (hsm.symm.trans hsm')
    refine ⟨pre, curSm, by simp [hcur, hpre], hs, hsu, ?_⟩
    simp [resourceRows, hpre]
  · refine ⟨curRm.scopeMetrics, ⟨sm.scope, [], sm.schemaUrl⟩, by simp [hcur], rfl, rfl, ?_⟩
    simp [resourceRows, scopeRows]

theorem splitting_pushMetric {s : Splitter T} {done : List (Row T)} {ri si : ℕ}
    {rm : ResourceMetrics T} {sm : ScopeMetrics T} {m : Metric T}
    (h : Splitting encode max src s done) (hcur : s.curRi = some ri) (hri : src[ri]? = some rm)
    (hsi : rm.scopeMetrics[si]? = some sm) (hfit : s.currentPoints + pointCount m ≤ max) :
    ∃ s', (pushMetric si sm m (pointCount m) s : Exec ε (Splitter T)) = .ok s'
      ∧ Splitting encode max src s' (done ++ metricRows rm sm m) := by
  obtain ⟨⟨reqs, hchunks, hpacked⟩, hcount, hmirrors⟩ := h
  obtain ⟨rm', curRm, ⟨hri', ⟨pre, hpre⟩, hr, hru⟩, hopen⟩ := hmirrors ri hcur
  obtain rfl : rm = rm' := Option.some.inj (hri.symm.trans hri')
  obtain ⟨pre', curSm, hopened, hs, hsu, hrows⟩ := opened_scope hsi hopen
  have hrow : metricRows curRm curSm m = metricRows rm sm m := metricRows_congr hr hru hs hsu m
  set curSm' : ScopeMetrics T := { curSm with metrics := curSm.metrics ++ [m] }
  set curRm' : ResourceMetrics T := { curRm with scopeMetrics := pre' ++ [curSm'] }
  have hscope : scopeRows curRm' curSm' = scopeRows curRm curSm ++ metricRows rm sm m := by
    rw [← hrow]
    simp only [scopeRows, curSm', List.flatMap_append, List.flatMap_singleton]
    rfl
  have hcurrent : rows ⟨pre ++ [curRm']⟩ = rows s.current ++ metricRows rm sm m := by
    have hpre' : pre'.flatMap (scopeRows curRm') = pre'.flatMap (scopeRows curRm) := rfl
    have hresource : resourceRows curRm' = resourceRows curRm ++ metricRows rm sm m := by
      rw [hrows, List.append_assoc, ← hscope, ← hpre']
      simp [resourceRows, curRm']
    simp only [rows, hpre, List.flatMap_append, List.flatMap_singleton, hresource,
      List.append_assoc]
  have hpush : (pushMetric si sm m (pointCount m) s : Exec ε (Splitter T))
      = .ok { s with
        current := ⟨pre ++ [curRm']⟩
        currentPoints := s.currentPoints + pointCount m
        curSi := some si } := by
    unfold pushMetric
    rw [hpre, updateLast_append pre curRm curRm']
    · rfl
    · simp only [hopened]
      rw [updateLast_append pre' curSm curSm' rfl]
      rfl
  refine ⟨_, hpush, ⟨reqs, hchunks, ?_⟩, ?_, ?_⟩
  · show Packed max (reqs.map rows) (rows ⟨pre ++ [curRm']⟩) _
    rw [hcurrent]
    exact hpacked.add (by rwa [← hcount, length_metricRows])
  · show s.currentPoints + pointCount m = (rows ⟨pre ++ [curRm']⟩).length
    rw [hcurrent, List.length_append, length_metricRows, hcount]
  · intro ri' hri'
    obtain rfl : ri = ri' := Option.some.inj (hcur.symm.trans hri')
    refine ⟨rm, curRm', ⟨hri, ⟨pre, rfl⟩, hr, hru⟩, fun si' hsi' => ?_⟩
    obtain rfl : si = si' := Option.some.inj hsi'
    exact ⟨sm, pre', curSm', hsi, rfl, hs, hsu⟩

theorem splitting_pushSlice {s : Splitter T} {done : List (Row T)} {ri si : ℕ}
    {rm : ResourceMetrics T} {sm : ScopeMetrics T} {m : Metric T} {start stop : ℕ}
    (h : Splitting encode max src s done) (hri : src[ri]? = some rm)
    (hsi : rm.scopeMetrics[si]? = some sm) (hle : start ≤ stop) (hstop : stop ≤ pointCount m)
    (hmax : stop - start ≤ max) :
    ∃ s', (pushSlice encode max ri rm si sm m start stop s : Exec ε (Splitter T)) = .ok s'
      ∧ Splitting encode max src s'
        (done ++ ((metricRows rm sm m).drop start).take (stop - start)) := by
  obtain ⟨piece, hpiece, hshell, hpoints⟩ := metricSlice_eq (ε := ε) m hle hstop
  have hcount : pointCount piece = stop - start := by
    rw [← length_points, hpoints, List.length_take, List.length_drop, length_points]
    omega
  obtain ⟨hflush, hfit⟩ := splitting_flush h hmax
  obtain ⟨hopen, hcur, hsame⟩ := splitting_openResource hflush hri
  rw [← hsame] at hfit
  obtain ⟨s', hpush, hs'⟩ := splitting_pushMetric (ε := ε) hopen hcur hri hsi (by rwa [hcount])
  rw [hcount] at hpush
  refine ⟨s', ?_, ?_⟩
  · simp only [pushSlice, hpiece, ok_bind, hpush]
  · rwa [metricRows_slice hshell hpoints] at hs'

/-! ## The loops -/

@[simp] theorem Fueled.of_ok {α : Type} (a : α) : (Fueled.of (.ok a) : Fueled ε α) = pure a := rfl

/-- The inner loop deals out the rest of a metric's rows. With a positive limit each pass goes on,
so it ends whatever its fuel, where there is enough for a point a pass. -/
theorem splitting_sliceLoop {ri si : ℕ} {rm : ResourceMetrics T} {sm : ScopeMetrics T}
    {m : Metric T} (hpos : 1 ≤ max) (hri : src[ri]? = some rm)
    (hsi : rm.scopeMetrics[si]? = some sm) (done : List (Row T)) (k : ℕ) :
    ∀ (start : ℕ) (s : Splitter T), start + k = pointCount m →
      Splitting encode max src s (done ++ (metricRows rm sm m).take start) →
      ∃ s', (∀ fuel, k < fuel →
          (sliceLoop encode max ri rm si sm m (pointCount m) fuel start s
            : Fueled ε (Splitter T)) = pure s')
        ∧ Splitting encode max src s' (done ++ metricRows rm sm m) := by
  induction k using Nat.strong_induction_on with
  | _ k ih =>
    intro start s hk h
    by_cases hlt : start < pointCount m
    · have hstop : start < min (start + max) (pointCount m) := by omega
      have hend : min (start + max) (pointCount m) ≤ pointCount m := by omega
      obtain ⟨s₁, hs₁, h₁⟩ :=
        splitting_pushSlice (ε := ε) h hri hsi hstop.le hend (by omega)
      rw [List.append_assoc, take_append_stretch _ hstop.le] at h₁
      obtain ⟨s₂, hs₂, h₂⟩ := ih (pointCount m - min (start + max) (pointCount m)) (by omega)
        (min (start + max) (pointCount m)) s₁ (by omega) h₁
      refine ⟨s₂, fun fuel hfuel => ?_, h₂⟩
      obtain ⟨fuel, rfl⟩ := Nat.exists_eq_add_of_lt hfuel
      rw [sliceLoop, if_pos hlt]
      simp only [hs₁, Fueled.of_ok, pure_bind]
      exact hs₂ _ (by omega)
    · refine ⟨s, fun fuel hfuel => ?_, ?_⟩
      · obtain ⟨fuel, rfl⟩ := Nat.exists_eq_add_of_lt hfuel
        rw [sliceLoop, if_neg hlt]
      · rwa [List.take_of_length_le (by rw [length_metricRows]; omega)] at h

/-- The fuels that are enough for the loops of a request. -/
abbrev Enough (req : ExportMetricsServiceRequest T) := {fuel : ℕ // totalPoints req < fuel}

variable {req : ExportMetricsServiceRequest T}

theorem splitting_splitMetric {ri si : ℕ} {rm : ResourceMetrics T} {sm : ScopeMetrics T}
    {m : Metric T} (hpos : 1 ≤ max) (hri : src[ri]? = some rm)
    (hsi : rm.scopeMetrics[si]? = some sm) (hm : pointCount m ≤ totalPoints req) (s : Splitter T)
    (done : List (Row T)) (h : Splitting encode max src s done) :
    ∃ s', (∀ fuel : Enough req,
        (splitMetric encode max fuel ri rm si sm s m : Fueled ε (Splitter T)) = pure s')
      ∧ Splitting encode max src s' (done ++ metricRows rm sm m) := by
  unfold splitMetric
  by_cases hzero : pointCount m = 0
  · have hnil : metricRows rm sm m = [] := by
      rw [← List.length_eq_zero_iff, length_metricRows, hzero]
    exact ⟨s, fun _ => if_pos hzero, by rwa [hnil, List.append_nil]⟩
  · simp only [if_neg hzero]
    obtain ⟨s', hloop, hs'⟩ := splitting_sliceLoop (ε := ε) (m := m) hpos hri hsi done
      (pointCount m) 0 s (by omega) (by simpa using h)
    exact ⟨s', fun fuel => hloop fuel (hm.trans_lt fuel.2), hs'⟩

theorem pointCount_le_totalPoints {rm : ResourceMetrics T} {sm : ScopeMetrics T} {m : Metric T}
    (hrm : rm ∈ req.resourceMetrics) (hsm : sm ∈ rm.scopeMetrics) (hm : m ∈ sm.metrics) :
    pointCount m ≤ totalPoints req := by
  apply List.single_le_sum (fun _ _ => Nat.zero_le _) _
  simp only [List.mem_map, List.mem_flatMap]
  exact ⟨m, ⟨sm, ⟨rm, hrm, hsm⟩, hm⟩, rfl⟩

/-- The outer loops deal out the rows of the whole request. -/
theorem splitting_all (hpos : 1 ≤ max) : ∃ s,
    (∀ fuel : Enough req,
      (req.resourceMetrics.zipIdx.foldlM (splitResource encode max fuel) Splitter.new
        : Fueled ε (Splitter T)) = pure s)
    ∧ Splitting encode max req.resourceMetrics s (rows req) := by
  have hnew : Splitting encode max req.resourceMetrics Splitter.new [] := splitting_new
  rw [rows, ← flatMap_zipIdx _ _ 0, ← List.nil_append (List.flatMap _ _)]
  refine foldlM_appends (fun resource hr s done h => ?_) _ _ hnew
  have hri := List.mem_zipIdx_iff_getElem?.1 hr
  rw [resourceRows, ← flatMap_zipIdx _ _ 0]
  refine foldlM_appends (fun scope hsc s done h => ?_) s done h
  have hsi := List.mem_zipIdx_iff_getElem?.1 hsc
  refine foldlM_appends (fun m hm s done h => ?_) s done h
  exact splitting_splitMetric hpos hri hsi (pointCount_le_totalPoints
    (List.mem_of_getElem? hri) (List.mem_of_getElem? hsi) hm) s done h

/-- The requests that come of a packing, the open one last. -/
theorem Splitting.requests {s : Splitter T} {done : List (Row T)}
    (h : Splitting encode max src s done) : ∃ reqs : List (ExportMetricsServiceRequest T),
      (if s.currentPoints > 0 then s.chunks ++ [encode s.current] else s.chunks)
        = reqs.map encode
      ∧ (∀ r ∈ reqs, 1 ≤ totalPoints r ∧ totalPoints r ≤ max) ∧ reqs.flatMap rows = done := by
  obtain ⟨⟨reqs, hchunks, hpacked⟩, hcount, -⟩ := h
  have hbins : ∀ {rs : List (ExportMetricsServiceRequest T)} {opened : List (Row T)},
      Packed max (rs.map rows) opened done →
        ∀ r ∈ rs, 1 ≤ totalPoints r ∧ totalPoints r ≤ max := by
    intro rs opened hp r hr
    have hmem := List.mem_map_of_mem (f := rows) hr
    rw [totalPoints_eq]
    exact ⟨List.length_pos_iff_ne_nil.2 (hp.nonempty _ hmem), hp.le _ hmem⟩
  by_cases hopen : s.currentPoints > 0
  · have hne : rows s.current ≠ [] := by
      rwa [← List.length_pos_iff_ne_nil, ← hcount]
    have hclosed : Packed max ((reqs ++ [s.current]).map rows) [] done := by
      rw [List.map_append]
      exact hpacked.close hne
    refine ⟨reqs ++ [s.current], by simp [hopen, hchunks], hbins hclosed, ?_⟩
    simpa [List.flatMap_def] using hclosed.flatten
  · have hnil : rows s.current = [] := by
      rw [← List.length_eq_zero_iff, ← hcount]
      omega
    refine ⟨reqs, by simp [hopen, hchunks], hbins hpacked, ?_⟩
    simpa [List.flatMap_def, hnil] using hpacked.flatten

/-- Splitting ends, with at least one request. A body within the limit comes back as it is; from
one over it come requests of between 1 and `max` points whose rows, in order, are the rows of the
original: no point is lost, repeated, moved, or under another resource, scope or metric. -/
theorem split_lossless {decode : List UInt8 → Except ε (ExportMetricsServiceRequest T)}
    (hinv : ∀ r, decode (encode r) = .ok r) {body : List UInt8}
    (hbody : decode body = .ok req) (hpos : 1 ≤ max) :
    ∃ chunks, chunks ≠ []
      ∧ (∀ fuel, totalPoints req < fuel →
        splitRequest encode decode fuel body max = pure chunks)
      ∧ (totalPoints req ≤ max → chunks = [body])
      ∧ (max < totalPoints req → ∃ reqs : List (ExportMetricsServiceRequest T),
        chunks.map decode = reqs.map .ok
        ∧ (∀ r ∈ reqs, 1 ≤ totalPoints r ∧ totalPoints r ≤ max)
        ∧ reqs.flatMap rows = rows req) := by
  by_cases hsmall : totalPoints req ≤ max
  · refine ⟨[body], by simp, fun fuel _ => ?_, fun _ => rfl, fun h => absurd hsmall (by omega)⟩
    simp only [splitRequest, hbody, Rust.ofExcept, Fueled.of_ok, pure_bind, if_pos hsmall]
  obtain ⟨s, hs, hsplit⟩ := @splitting_all T encode ε max req hpos
  obtain ⟨reqs, hreqs, hbounds, hrows⟩ := hsplit.requests
  refine ⟨reqs.map encode, ?_, fun fuel hfuel => ?_, fun h => absurd h hsmall,
    fun _ => ⟨reqs, ?_, hbounds, hrows⟩⟩
  · intro hnil
    rw [List.map_eq_nil_iff.1 hnil] at hrows
    rw [totalPoints_eq, ← hrows] at hsmall
    simp at hsmall
  · simp only [splitRequest, hbody, Rust.ofExcept, Fueled.of_ok, pure_bind, if_neg hsmall,
      hs ⟨fuel, hfuel⟩, hreqs]
  · rw [List.map_map]
    exact List.map_congr_left fun r _ => hinv r

/-! ## A request that is split -/

section Sample

def sampleTypes : Types := ⟨Unit, Unit, Unit, Unit, Unit, Unit, Unit⟩

instance encodableChar : Encodable Char := .ofLeftInverse Char.toNat Char.ofNat Char.ofNat_toNat

instance encodableString : Encodable String :=
  .ofLeftInverse String.toList String.ofList fun _ => String.ofList_toList

instance encodableInt32 : Encodable Int32 :=
  .ofLeftInverse Int32.toInt Int32.ofInt Int32.ofInt_toInt

abbrev DataCode := List Unit ⊕ (List Unit × Int32 × Bool) ⊕ (List Unit × Int32)
  ⊕ (List Unit × Int32) ⊕ List Unit

def dataCode : Data sampleTypes → DataCode
  | .gauge d => .inl d
  | .sum d t mono => .inr (.inl (d, t, mono))
  | .histogram d t => .inr (.inr (.inl (d, t)))
  | .exponentialHistogram d t => .inr (.inr (.inr (.inl (d, t))))
  | .summary d => .inr (.inr (.inr (.inr d)))

def dataOfCode : DataCode → Data sampleTypes
  | .inl d => .gauge d
  | .inr (.inl (d, t, mono)) => .sum d t mono
  | .inr (.inr (.inl (d, t))) => .histogram d t
  | .inr (.inr (.inr (.inl (d, t)))) => .exponentialHistogram d t
  | .inr (.inr (.inr (.inr d))) => .summary d

instance : Encodable (Data sampleTypes) :=
  .ofLeftInverse dataCode dataOfCode fun d => by cases d <;> rfl

instance : Encodable (Metric sampleTypes) :=
  .ofLeftInverse
    (fun m => ((m.name, m.description, m.unit, m.metadata, m.data)
      : String × String × String × List Unit × Option (Data sampleTypes)))
    (fun c => ⟨c.1, c.2.1, c.2.2.1, c.2.2.2.1, c.2.2.2.2⟩) fun _ => rfl

instance : Encodable (ScopeMetrics sampleTypes) :=
  .ofLeftInverse
    (fun sm => ((sm.scope, sm.metrics, sm.schemaUrl)
      : Option Unit × List (Metric sampleTypes) × String))
    (fun c => ⟨c.1, c.2.1, c.2.2⟩) fun _ => rfl

instance : Encodable (ResourceMetrics sampleTypes) :=
  .ofLeftInverse
    (fun rm => ((rm.resource, rm.scopeMetrics, rm.schemaUrl)
      : Option Unit × List (ScopeMetrics sampleTypes) × String))
    (fun c => ⟨c.1, c.2.1, c.2.2⟩) fun _ => rfl

instance : Encodable (ExportMetricsServiceRequest sampleTypes) :=
  .ofLeftInverse (·.resourceMetrics) (⟨·⟩) fun _ => rfl

/-- A request of one gauge with `n` empty points. -/
def gaugeRequest (n : ℕ) : ExportMetricsServiceRequest sampleTypes :=
  ⟨[⟨none, [⟨none, [⟨"", "", "", [], some (.gauge (List.replicate n ()))⟩], ""⟩], ""⟩]⟩

/-- The protobuf bytes of `gaugeRequest 1` and `gaugeRequest 2`. -/
def onePointBytes : List UInt8 := [0x0a, 8, 0x12, 6, 0x12, 4, 0x2a, 2, 0x0a, 0]

def twoPointBytes : List UInt8 := [0x0a, 10, 0x12, 8, 0x12, 6, 0x2a, 4, 0x0a, 0, 0x0a, 0]

instance : DecidableEq (ExportMetricsServiceRequest sampleTypes) :=
  Encodable.decidableEqOfEncodable _

/-- The protobuf encoding on `gaugeRequest 1`, and a numbering elsewhere. -/
def sampleEncode (r : ExportMetricsServiceRequest sampleTypes) : List UInt8 :=
  if r = gaugeRequest 1 then onePointBytes else List.replicate (Encodable.encode r) 0

def sampleDecode (b : List UInt8) : Except Unit (ExportMetricsServiceRequest sampleTypes) :=
  if b = onePointBytes then .ok (gaugeRequest 1)
  else if b = twoPointBytes then .ok (gaugeRequest 2)
  else match Encodable.decode b.length with
    | some r => .ok r
    | none => .error ()

theorem sampleDecode_sampleEncode (r : ExportMetricsServiceRequest sampleTypes) :
    sampleDecode (sampleEncode r) = .ok r := by
  unfold sampleEncode
  by_cases hr : r = gaugeRequest 1
  · rw [if_pos hr, sampleDecode, if_pos rfl, hr]
  have hzero : ∀ {l : List UInt8}, 0x0a ∈ l → List.replicate (Encodable.encode r) 0 ≠ l := by
    intro l hl heq
    rw [← heq] at hl
    exact absurd (List.eq_of_mem_replicate hl) (by decide)
  rw [if_neg hr, sampleDecode, if_neg (hzero (by simp [onePointBytes])),
    if_neg (hzero (by simp [twoPointBytes])), List.length_replicate, Encodable.encodek]

/-- Two points under a limit of one leave in requests of one point each. -/
theorem split_lossless_two : ∃ chunks, ∃ reqs : List (ExportMetricsServiceRequest sampleTypes),
    (∀ fuel, 2 < fuel →
      splitRequest sampleEncode sampleDecode fuel twoPointBytes 1 = pure chunks)
    ∧ chunks.map sampleDecode = reqs.map .ok ∧ (∀ r ∈ reqs, totalPoints r = 1)
    ∧ reqs.flatMap rows = rows (gaugeRequest 2) := by
  obtain ⟨chunks, -, hrun, -, hsplit⟩ := split_lossless sampleDecode_sampleEncode
    (show sampleDecode twoPointBytes = .ok (gaugeRequest 2) from rfl) le_rfl
  obtain ⟨reqs, hdecode, hbounds, hrows⟩ := hsplit (show 1 < 2 by omega)
  refine ⟨chunks, reqs, hrun, hdecode, fun r hr => ?_, hrows⟩
  exact le_antisymm (hbounds r hr).2 (hbounds r hr).1

end Sample

end Teecryptor.Otlp
