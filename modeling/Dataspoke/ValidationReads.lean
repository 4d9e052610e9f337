import Dataspoke.Metrics
import Dataspoke.RowNumber

/-!
# Reads of validation results

The history of a dataset, the latest results of a page of datasets, and the latest results that
the `validation-score` measurer evaluates.
-/

namespace Dataspoke
namespace Validation

open Python RowNumber
open Metrics (DatasetVerdict Value secondsBefore)

/-- Times are microseconds. -/
structure ValidationResult where
  id : ℕ
  dataset_urn : Str
  data_time : ℕ
  score : Number
  «variables» : List (Str × Number)
  score_note : Option Str
  ingestion_time : ℕ
  deriving DecidableEq

structure ValidationResultRecord where
  data_time : ℕ
  score : Number
  «variables» : List (Str × Number)
  score_note : Option Str

def ValidationResult.record (r : ValidationResult) : ValidationResultRecord :=
  ⟨r.data_time,r.score,r.«variables»,r.score_note⟩

/-- `attribute` is an object of ints by the contract of its column. -/
structure ValidationConfig where
  dataset_urn : Str
  «attribute» : List (Str × ℤ)

def DEFAULT_VALIDATION_ATTRIBUTE : List (Str × ℤ) :=
  [("cadence_unit".toList,86400),("cadence_offset".toList,0)]

/-- `row.attribute or DEFAULT_VALIDATION_ATTRIBUTE` -/
def ValidationConfig.declared (c : ValidationConfig) : List (Str × ℤ) :=
  if c.«attribute» = [] then DEFAULT_VALIDATION_ATTRIBUTE else c.«attribute»

def RESULT_LIMIT_CAP : ℤ := 10000

section Reads

variable (results : Table ValidationResult.id)

/-- The results of a dataset with a data time from `from_dt` on and before `until_dt`. -/
def window (dataset_urn : Str) (from_dt until_dt : Option ℕ) : List ValidationResult :=
  results.rows.filter fun r => r.dataset_urn = dataset_urn &&
    from_dt.all (fun t => decide (t ≤ r.data_time)) &&
    until_dt.all (fun t => decide (r.data_time < t))

def effective_limit (limit : ℤ) : ℕ := (max 1 (min limit RESULT_LIMIT_CAP)).toNat

/-- `ORDER BY ingestion_time DESC`. -/
def writtenLast (a b : ValidationResult) : Bool := b.ingestion_time ≤ a.ingestion_time

/-- `ORDER BY data_time DESC`. -/
def newest (a b : ValidationResult) : Bool := b.data_time ≤ a.data_time

/-- `ORDER BY data_time DESC, ingestion_time DESC`. -/
def latest (a b : ValidationResult) : Bool :=
  b.data_time < a.data_time || b.data_time = a.data_time && b.ingestion_time ≤ a.ingestion_time

def get_results (dataset_urn : Str) (from_dt until_dt : Option ℕ) (limit : ℤ) :
    List ValidationResultRecord × ℕ :=
  let rows := window results dataset_urn from_dt until_dt
  let total_count := (rows.map (·.data_time)).dedup.length
  let sub := firstRows (·.data_time) writtenLast rows
  (((sub.mergeSort newest).take (effective_limit limit)).map (·.record),total_count)

/-- The query of the latest result of each of some datasets. -/
def latest_sub (urns : List Str) : List ValidationResult :=
  firstRows (·.dataset_urn) latest (results.rows.filter fun r => r.dataset_urn ∈ urns)

/-- A dict from the URNs, which the rows have once each. -/
def latest_results_by_urn (urns : List Str) : List (Str × ℕ × Number) :=
  if urns = [] then []
  else (latest_sub results urns).map fun r => (r.dataset_urn,r.data_time,r.score)

end Reads

section Measurer

/-- The bounds, the unit and the offset; both bounds are inclusive. `none` where a bound
overflows. -/
def window_bounds (now : ℕ) (attr : List (Str × ℤ)) (window_sec : ℤ) : Option (ℤ × ℤ × ℤ × ℤ) := do
  let cadence_unit := (get? "cadence_unit".toList attr).getD 86400
  let cadence_offset := (get? "cadence_offset".toList attr).getD 0
  let upper_bound ← secondsBefore now (cadence_offset*cadence_unit)
  let lower_bound ← secondsBefore upper_bound window_sec
  return (lower_bound,upper_bound,cadence_unit,cadence_offset)

variable (isoformat : ℤ → Str) (now : ℕ) (window_sec : ℤ)

/-- The verdict on a configured dataset, with the bounds of its window. -/
def verdictWithin (bounds : ℤ × ℤ × ℤ × ℤ) (urn : Str) (latest_row : Option (ℕ × Number)) :
    DatasetVerdict :=
  let (lower_bound,upper_bound,cadence_unit,cadence_offset) := bounds
  let base_detail : List (Str × Value) :=
    [("time_window_sec".toList,.int window_sec),("cadence_unit".toList,.int cadence_unit),
      ("cadence_offset".toList,.int cadence_offset),
      ("lower_bound".toList,.str (isoformat lower_bound)),
      ("upper_bound".toList,.str (isoformat upper_bound))]
  match latest_row with
  | none =>
    { urn := urn
      met := false
      detail := base_detail ++ [("latest_data_time".toList,.none),("score".toList,.none)] }
  | some (latest_data_time,latest_score) =>
    let in_window := decide (lower_bound ≤ latest_data_time ∧ (latest_data_time : ℤ) ≤ upper_bound)
    { urn := urn
      met := in_window && Number.le (.fin 1) latest_score
      evidence_at := if in_window then some latest_data_time else none
      detail := base_detail ++ [("latest_data_time".toList,.str (isoformat latest_data_time)),
        ("score".toList,.float latest_score)] }

/-- One round over the configured datasets; `none` where it raises. -/
def evaluate (attr : List (Str × ℤ)) (urn : Str) (latest_row : Option (ℕ × Number)) :
    Option DatasetVerdict :=
  (window_bounds now attr window_sec).map fun bounds =>
    verdictWithin isoformat window_sec bounds urn latest_row

variable (configs : Table ValidationConfig.dataset_urn) (results : Table ValidationResult.id)

def attribute_by_urn (datasets : List Str) : List (Str × List (Str × ℤ)) :=
  (configs.rows.filter fun c => c.dataset_urn ∈ datasets).map fun c =>
    (c.dataset_urn,c.declared)

/-- The scope's datasets that have a configuration, each with its attribute. -/
def configured (datasets : List Str) : List (Str × List (Str × ℤ)) :=
  datasets.filterMap fun urn =>
    (get? urn (attribute_by_urn configs datasets)).map fun attr => (urn,attr)

/-- The `latest` dict of the measurer. -/
def measured_latest (urns : List Str) : List (Str × ℕ × Number) :=
  (latest_sub results urns).map fun r => (r.dataset_urn,r.data_time,r.score)

/-- The `validation-score` measurer; `none` where it raises. -/
def measure (datasets : List Str) : Option (List (Str × Number) × List DatasetVerdict) := do
  let configured := configured configs datasets
  let latest := measured_latest results (configured.map Prod.fst)
  let verdicts ← configured.mapM fun c =>
    evaluate isoformat now window_sec c.2 c.1 (get? c.1 latest)
  return ([("valid_confd".toList,.fin configured.length),
    ("valid_in_time".toList,.fin (verdicts.countP (·.met)))],verdicts)

end Measurer

section Verdicts

variable {isoformat : ℤ → Str} {now : ℕ} {window_sec : ℤ}
  {configs : Table ValidationConfig.dataset_urn} {results : Table ValidationResult.id}
  {datasets : List Str}

theorem evaluate_urn {attr : List (Str × ℤ)} {urn : Str} {latest_row : Option (ℕ × Number)}
    {v : DatasetVerdict} (h : evaluate isoformat now window_sec attr urn latest_row = some v) :
    v.urn = urn := by
  obtain ⟨bounds,-,rfl⟩ := Option.map_eq_some_iff.mp h
  cases latest_row <;> rfl

theorem get?_attribute_by_urn {urn : Str} (hurn : urn ∈ datasets) :
    get? urn (attribute_by_urn configs datasets) = (configs.get? urn).map (·.declared) := by
  have hkeys : ((attribute_by_urn configs datasets).map Prod.fst).Nodup := by
    rw [attribute_by_urn,List.map_map]
    exact (configs.nodup).sublist (List.filter_sublist.map _)
  ext attr
  rw [get?_eq_some_iff hkeys,attribute_by_urn,List.mem_map,Option.map_eq_some_iff]
  constructor
  · rintro ⟨c,hc,heq⟩
    obtain ⟨rfl,rfl⟩ := Prod.mk.inj heq
    exact ⟨c,Table.mem_rows.mp (List.mem_filter.mp hc).1,rfl⟩
  · rintro ⟨c,hc,rfl⟩
    obtain ⟨hmem,rfl⟩ := Table.get?_eq_some.mp hc
    exact ⟨c,List.mem_filter.mpr ⟨hmem,decide_eq_true hurn⟩,rfl⟩

theorem mem_configured {c : Str × List (Str × ℤ)} : c ∈ configured configs datasets ↔
    c.1 ∈ datasets ∧ ∃ conf, configs.get? c.1 = some conf ∧ c.2 = conf.declared := by
  rw [configured,List.mem_filterMap]
  constructor
  · rintro ⟨urn,hurn,h⟩
    rw [get?_attribute_by_urn hurn] at h
    obtain ⟨attr,hattr,rfl⟩ := Option.map_eq_some_iff.mp h
    obtain ⟨conf,hconf,rfl⟩ := Option.map_eq_some_iff.mp hattr
    exact ⟨hurn,conf,hconf,rfl⟩
  · rintro ⟨hurn,conf,hconf,hattr⟩
    refine ⟨c.1,hurn,?_⟩
    rw [get?_attribute_by_urn hurn,hconf,Option.map_some,Option.map_some,← hattr]

theorem measure_eq_some {out : List (Str × Number) × List DatasetVerdict} :
    measure isoformat now window_sec configs results datasets = some out ↔
      (configured configs datasets).map (fun c => evaluate isoformat now window_sec c.2 c.1
        (get? c.1 (measured_latest results ((configured configs datasets).map Prod.fst)))) =
          out.2.map some ∧
      out.1 = [("valid_confd".toList,.fin (configured configs datasets).length),
        ("valid_in_time".toList,.fin (out.2.countP (·.met)))] := by
  rw [← mapM_eq_some]
  constructor
  · intro h
    obtain ⟨verdicts,hverdicts,hout⟩ := Option.bind_eq_some_iff.mp h
    obtain rfl := Option.some.inj hout
    exact ⟨hverdicts,rfl⟩
  · rintro ⟨hverdicts,hvalues⟩
    refine Option.bind_eq_some_iff.mpr ⟨out.2,hverdicts,congrArg some ?_⟩
    rw [← hvalues]

theorem measure_eq_none (h : measure isoformat now window_sec configs results datasets = none) :
    ∃ c ∈ configured configs datasets, window_bounds now c.2 window_sec = none := by
  have hmapM : (configured configs datasets).mapM (fun c => evaluate isoformat now window_sec c.2 c.1
      (get? c.1 (measured_latest results ((configured configs datasets).map Prod.fst)))) = none := by
    cases hverdicts : (configured configs datasets).mapM (fun c => evaluate isoformat now window_sec
        c.2 c.1 (get? c.1 (measured_latest results
          ((configured configs datasets).map Prod.fst)))) with
    | none => rfl
    | some verdicts =>
      rw [measure,hverdicts] at h
      cases h
  obtain ⟨c,hc,hnone⟩ := mapM_eq_none.mp hmapM
  exact ⟨c,hc,Option.map_eq_none_iff.mp hnone⟩

end Verdicts

theorem writtenLast_trans (a b c : ValidationResult) (hab : writtenLast a b = true)
    (hbc : writtenLast b c = true) : writtenLast a c = true := by
  simp only [writtenLast,decide_eq_true_eq] at *
  omega

theorem writtenLast_total (a b : ValidationResult) :
    (writtenLast a b || writtenLast b a) = true := by
  simp only [writtenLast,Bool.or_eq_true,decide_eq_true_eq]
  omega

theorem newest_trans (a b c : ValidationResult) (hab : newest a b = true)
    (hbc : newest b c = true) : newest a c = true := by
  simp only [newest,decide_eq_true_eq] at *
  omega

theorem newest_total (a b : ValidationResult) : (newest a b || newest b a) = true := by
  simp only [newest,Bool.or_eq_true,decide_eq_true_eq]
  omega

theorem latest_iff {a b : ValidationResult} : latest a b = true ↔
    b.data_time < a.data_time ∨
      b.data_time = a.data_time ∧ b.ingestion_time ≤ a.ingestion_time := by
  simp only [latest,Bool.or_eq_true,Bool.and_eq_true,decide_eq_true_eq]

theorem latest_trans (a b c : ValidationResult) (hab : latest a b = true)
    (hbc : latest b c = true) : latest a c = true := by
  rw [latest_iff] at *
  omega

theorem latest_total (a b : ValidationResult) : (latest a b || latest b a) = true := by
  rw [Bool.or_eq_true,latest_iff,latest_iff]
  omega

section Agreement

variable {results : Table ValidationResult.id} {urn : Str} {from_dt until_dt : Option ℕ}

/-- No two results of the dataset have their data time and their ingestion time in common. -/
def Distinct (results : Table ValidationResult.id) (urn : Str) : Prop :=
  ∀ a ∈ results.rows, ∀ b ∈ results.rows, a.dataset_urn = urn → b.dataset_urn = urn →
    a.data_time = b.data_time → a.ingestion_time = b.ingestion_time → a = b

/-- The result of its data time that was written last. -/
def WrittenLast (rows : List ValidationResult) (r : ValidationResult) : Prop :=
  r ∈ rows ∧ ∀ a ∈ rows, a.data_time = r.data_time → a.ingestion_time ≤ r.ingestion_time

theorem mem_window {r : ValidationResult} : r ∈ window results urn from_dt until_dt ↔
    r ∈ results.rows ∧ r.dataset_urn = urn ∧ (∀ t ∈ from_dt, t ≤ r.data_time) ∧
      ∀ t ∈ until_dt, r.data_time < t := by
  simp only [window,List.mem_filter,Bool.and_eq_true,decide_eq_true_eq,Option.all_eq_true,
    Option.mem_def,and_assoc]

/-- The rows behind a page of `get_results`, before the limit. -/
def history (results : Table ValidationResult.id) (urn : Str) (from_dt until_dt : Option ℕ) :
    List ValidationResult :=
  (firstRows (·.data_time) writtenLast (window results urn from_dt until_dt)).mergeSort newest

theorem mem_history (hd : Distinct results urn) {r : ValidationResult} :
    r ∈ history results urn from_dt until_dt ↔
      WrittenLast (window results urn from_dt until_dt) r := by
  rw [history,List.mem_mergeSort]
  by_cases hr : r ∈ window results urn from_dt until_dt
  · have hin := mem_window.mp hr
    rw [mem_firstRows writtenLast_trans writtenLast_total fun a ha htime hle hle' => ?_]
    · simp only [WrittenLast,writtenLast,decide_eq_true_eq]
    · have hina := mem_window.mp ha
      simp only [writtenLast,decide_eq_true_eq] at hle hle'
      exact hd a hina.1 r hin.1 hina.2.1 hin.2.1 htime (by omega)
  · exact ⟨fun h => absurd (mem_of_firstRows h) hr,fun h => absurd h.1 hr⟩

theorem history_sorted : (history results urn from_dt until_dt).Pairwise
    fun a b => b.data_time < a.data_time := by
  have hle := List.pairwise_mergeSort newest_trans newest_total
    (firstRows (·.data_time) writtenLast (window results urn from_dt until_dt))
  have hne : (history results urn from_dt until_dt).Pairwise
      fun a b => a.data_time ≠ b.data_time := by
    refine (List.mergeSort_perm _ newest).pairwise_iff (fun h => Ne.symm h) |>.mpr ?_
    exact firstRows_pairwise _
  refine (hle.and hne).imp fun {a b} h => ?_
  have hnewest := h.1
  simp only [newest,decide_eq_true_eq] at hnewest
  exact Nat.lt_of_le_of_ne hnewest h.2.symm

theorem mem_history_times {t : ℕ} :
    t ∈ (history results urn from_dt until_dt).map (·.data_time) ↔
      t ∈ (window results urn from_dt until_dt).map (·.data_time) := by
  simp only [List.mem_map]
  constructor
  · rintro ⟨r,hr,rfl⟩
    exact ⟨r,mem_of_firstRows (List.mem_mergeSort.mp hr),rfl⟩
  · rintro ⟨r,hr,rfl⟩
    have hfirst : ∃ a ∈ firstRows (·.data_time) writtenLast (window results urn from_dt until_dt),
        a.data_time = r.data_time := exists_firstRows hr
    obtain ⟨a,ha,htime⟩ := hfirst
    exact ⟨a,List.mem_mergeSort.mpr ha,htime⟩

theorem length_history : (history results urn from_dt until_dt).length =
    ((window results urn from_dt until_dt).map (·.data_time)).dedup.length := by
  have hnodup : ((history results urn from_dt until_dt).map (·.data_time)).Nodup := by
    rw [List.Nodup,List.pairwise_map]
    exact history_sorted.imp fun h => Nat.ne_of_gt h
  have hlength : (history results urn from_dt until_dt).length =
      ((history results urn from_dt until_dt).map (·.data_time)).length := (List.length_map _).symm
  rw [hlength]
  apply List.Perm.length_eq
  rw [List.perm_ext_iff_of_nodup hnodup (List.nodup_dedup _)]
  intro t
  rw [List.mem_dedup]
  exact mem_history_times

/-- The newest result of the dataset, and of its data time the one written last. -/
def Newest (results : Table ValidationResult.id) (urn : Str) (r : ValidationResult) : Prop :=
  r ∈ results.rows ∧ r.dataset_urn = urn ∧
    ∀ a ∈ results.rows, a.dataset_urn = urn → latest r a = true

theorem newest_of_head (hd : Distinct results urn) {r : ValidationResult}
    (h : (history results urn none none).head? = some r) : Newest results urn r := by
  have hr := List.mem_of_head? h
  obtain ⟨hin,hlast⟩ := (mem_history hd).mp hr
  obtain ⟨hrow,hurn,-⟩ := mem_window.mp hin
  refine ⟨hrow,hurn,fun a ha haurn => ?_⟩
  have hwindow : a ∈ window results urn none none := mem_window.mpr ⟨ha,haurn,nofun,nofun⟩
  obtain ⟨b,hb,htime⟩ := List.mem_map.mp (mem_history_times.mpr (List.mem_map_of_mem hwindow))
  obtain ⟨rest,hrest⟩ := List.head?_eq_some_iff.mp h
  have hsorted : (history results urn none none).Pairwise fun a b => b.data_time < a.data_time :=
    history_sorted
  rw [hrest] at hb hsorted
  rw [latest_iff]
  rcases List.mem_cons.mp hb with rfl | hb
  · have hle := hlast a hwindow htime.symm
    omega
  · have hlt := (List.pairwise_cons.mp hsorted).1 b hb
    omega

theorem mem_latest_sub (hd : Distinct results urn) {urns : List Str} (hurn : urn ∈ urns)
    {r : ValidationResult} (h : Newest results urn r) : r ∈ latest_sub results urns := by
  obtain ⟨hrow,rfl,hnewest⟩ := h
  refine (mem_firstRows latest_trans latest_total fun a ha haurn hle hle' => ?_).mpr ⟨?_,?_⟩
  · rw [latest_iff] at hle hle'
    have harow := (List.mem_filter.mp ha).1
    exact hd a harow r hrow haurn rfl (by omega) (by omega)
  · exact List.mem_filter.mpr ⟨hrow,by simpa using hurn⟩
  · exact fun a ha haurn => hnewest a (List.mem_filter.mp ha).1 haurn

theorem get?_of_newest (hd : Distinct results urn) {urns : List Str} (hurn : urn ∈ urns)
    {r : ValidationResult} (h : Newest results urn r) :
    get? urn (measured_latest results urns) = some (r.data_time,r.score) := by
  have hkeys : ((measured_latest results urns).map Prod.fst).Nodup := by
    rw [List.Nodup,measured_latest,List.pairwise_map,List.pairwise_map]
    exact firstRows_pairwise _
  rw [get?_eq_some_iff hkeys]
  refine List.mem_map.mpr ⟨r,mem_latest_sub hd hurn h,?_⟩
  rw [h.2.1]

/-- The dict of the latest results holds for a dataset the first row of its history. -/
theorem get?_measured_latest (hd : Distinct results urn) {urns : List Str} (hurn : urn ∈ urns) :
    get? urn (measured_latest results urns) =
      (history results urn none none).head?.map fun r => (r.data_time,r.score) := by
  cases hhead : (history results urn none none).head? with
  | some r => exact get?_of_newest hd hurn (newest_of_head hd hhead)
  | none =>
    cases hget : get? urn (measured_latest results urns) with
    | none => rfl
    | some v =>
      exfalso
      obtain ⟨r,hr,heq⟩ := List.mem_map.mp (mem_of_get? hget)
      have hrow := mem_of_firstRows hr
      have hin : r ∈ window results urn none none :=
        mem_window.mpr ⟨(List.mem_filter.mp hrow).1,congrArg Prod.fst heq,nofun,nofun⟩
      have htime := mem_history_times.mpr (List.mem_map_of_mem hin)
      rw [List.head?_eq_none_iff.mp hhead] at htime
      cases htime

theorem head?_get_results (results : Table ValidationResult.id) (urn : Str)
    (from_dt until_dt : Option ℕ) (limit : ℤ) :
    (get_results results urn from_dt until_dt limit).1.head? =
      (history results urn from_dt until_dt).head?.map (·.record) := by
  have hpos : effective_limit limit ≠ 0 := by
    unfold effective_limit
    omega
  unfold get_results
  dsimp only
  rw [List.head?_map,List.head?_take,if_neg hpos]
  rfl

/-- A page of the history: the newest of the results that were written last for their data
time, and how many there are. -/
structure Collapsed (rows : List ValidationResult) (limit : ℤ)
    (out : List ValidationResultRecord × ℕ) : Prop where
  page : ∃ all : List ValidationResult, (∀ r, r ∈ all ↔ WrittenLast rows r) ∧
    (∀ t, t ∈ all.map (·.data_time) ↔ t ∈ rows.map (·.data_time)) ∧
    all.Pairwise (fun a b => b.data_time < a.data_time) ∧ all.length = out.2 ∧
    out.1 = (all.take (effective_limit limit)).map (·.record)
  total_count : out.2 = (rows.map (·.data_time)).dedup.length

theorem collapsed_get_results (hd : Distinct results urn) (from_dt until_dt : Option ℕ)
    (limit : ℤ) : Collapsed (window results urn from_dt until_dt) limit
      (get_results results urn from_dt until_dt limit) := by
  constructor
  · refine ⟨history results urn from_dt until_dt,fun r => mem_history hd,
      fun t => mem_history_times,history_sorted,length_history,rfl⟩
  · rfl

/-- The data time and the score of the first row of a page. -/
def firstRow (out : List ValidationResultRecord × ℕ) : Option (ℕ × Number) :=
  out.1.head?.map fun r => (r.data_time,r.score)

theorem firstRow_get_results (results : Table ValidationResult.id) (urn : Str) (limit : ℤ) :
    firstRow (get_results results urn none none limit) =
      (history results urn none none).head?.map fun r => (r.data_time,r.score) := by
  rw [firstRow,head?_get_results,Option.map_map]
  rfl

/-- The measurer raises only where the window of a configured dataset overflows; else it has a
verdict on the dataset if that is configured, and on nothing but the first row of its history. -/
structure Evaluates (results : Table ValidationResult.id) (urn : Str) (isoformat : ℤ → Str)
    (now : ℕ) (window_sec : ℤ) (configs : Table ValidationConfig.dataset_urn)
    (datasets : List Str) : Prop where
  raises : measure isoformat now window_sec configs results datasets = none →
    ∃ other ∈ datasets, ∃ conf, configs.get? other = some conf ∧
      window_bounds now conf.declared window_sec = none
  verdicts : ∀ out, measure isoformat now window_sec configs results datasets = some out →
    ∀ conf, configs.get? urn = some conf → urn ∈ datasets →
    (∃ v ∈ out.2, v.urn = urn) ∧ ∀ v ∈ out.2, v.urn = urn → ∀ limit,
      evaluate isoformat now window_sec conf.declared urn
        (firstRow (get_results results urn none none limit)) = some v

theorem measure_evaluates (hd : Distinct results urn) (isoformat : ℤ → Str) (now : ℕ)
    (window_sec : ℤ) (configs : Table ValidationConfig.dataset_urn) (datasets : List Str) :
    Evaluates results urn isoformat now window_sec configs datasets := by
  constructor
  · intro hnone
    obtain ⟨c,hc,hbounds⟩ := measure_eq_none hnone
    obtain ⟨hin,conf,hconf,hattr⟩ := mem_configured.mp hc
    exact ⟨c.1,hin,conf,hconf,hattr ▸ hbounds⟩
  · intro out hout conf hconf hin
    obtain ⟨hmap,-⟩ := measure_eq_some.mp hout
    have hc : (urn,conf.declared) ∈ configured configs datasets :=
      mem_configured.mpr ⟨hin,conf,hconf,rfl⟩
    have hlatest := get?_measured_latest hd
      (List.mem_map.mpr ⟨_,hc,rfl⟩ : urn ∈ (configured configs datasets).map Prod.fst)
    constructor
    · have hverdict := List.mem_map_of_mem (f:=fun c : Str × List (Str × ℤ) =>
        evaluate isoformat now window_sec c.2 c.1 (get? c.1 (measured_latest results
          ((configured configs datasets).map Prod.fst)))) hc
      rw [hmap] at hverdict
      obtain ⟨v,hv,heq⟩ := List.mem_map.mp hverdict
      exact ⟨v,hv,evaluate_urn heq.symm⟩
    · intro v hv hvurn limit
      have hsome := List.mem_map_of_mem (f:=some) hv
      rw [← hmap] at hsome
      obtain ⟨c,hcmem,heval⟩ := List.mem_map.mp hsome
      have hcurn : c.1 = urn := (evaluate_urn heval).symm.trans hvurn
      obtain ⟨-,conf',hconf',hattr⟩ := mem_configured.mp hcmem
      rw [hcurn,hconf] at hconf'
      cases hconf'
      rw [firstRow_get_results,← hlatest,← hattr,← hcurn]
      exact heval

/-- The three reads agree on the latest result, and the history has each data time once. -/
theorem validation_reads_agree (hd : Distinct results urn) :
    (∀ urns limit, urn ∈ urns → get? urn (latest_results_by_urn results urns) =
      firstRow (get_results results urn none none limit)) ∧
    (∀ isoformat now window_sec configs datasets,
      Evaluates results urn isoformat now window_sec configs datasets) ∧
    ∀ from_dt until_dt limit, Collapsed (window results urn from_dt until_dt) limit
      (get_results results urn from_dt until_dt limit) := by
  refine ⟨fun urns limit hurn => ?_,measure_evaluates hd,collapsed_get_results hd⟩
  rw [latest_results_by_urn,if_neg (List.ne_nil_of_mem hurn),firstRow_get_results]
  exact get?_measured_latest hd hurn

end Agreement

/-- A result for the data time 5, one for 7, a back-filled one for 3, and one that replaces the
first. -/
def sampleResults : Table ValidationResult.id :=
  [(0,5,1),(1,7,2),(2,3,3),(3,5,4)].foldl (fun t r =>
    t.put ⟨r.1,['u'],r.2.1,.fin 1,[],none,r.2.2⟩) (Table.empty _)

def sampleConfigs : Table ValidationConfig.dataset_urn := (Table.empty _).put ⟨['u'],[]⟩

theorem sample_distinct : Distinct sampleResults ['u'] := by
  unfold Distinct
  decide +kernel

theorem sample_measured :
    (measure (fun _ => []) 7 0 sampleConfigs sampleResults [['v'],['u']]).isSome = true := by
  decide +kernel

theorem sample_newest : Newest sampleResults ['u'] ⟨1,['u'],7,.fin 1,[],none,2⟩ := by
  unfold Newest
  decide +kernel

theorem validation_reads_sample :
    firstRow (get_results sampleResults ['u'] none none 1) = some (7,.fin 1) ∧
    (∃ out v, measure (fun _ => []) 7 0 sampleConfigs sampleResults [['v'],['u']] = some out ∧
      v ∈ out.2 ∧ evaluate (fun _ => []) 7 0 DEFAULT_VALIDATION_ATTRIBUTE ['u'] (some (7,.fin 1)) =
        some v) ∧
    Collapsed (window sampleResults ['u'] none (some 7)) 1
      (get_results sampleResults ['u'] none (some 7) 1) := by
  obtain ⟨hlatest,hmeasured,hcollapsed⟩ := validation_reads_agree sample_distinct
  have hfirst : firstRow (get_results sampleResults ['u'] none none 1) = some (7,.fin 1) := by
    rw [← hlatest [['u']] 1 List.mem_cons_self]
    exact get?_of_newest sample_distinct List.mem_cons_self sample_newest
  refine ⟨hfirst,?_,hcollapsed none (some 7) 1⟩
  obtain ⟨out,hout⟩ := Option.isSome_iff_exists.mp sample_measured
  obtain ⟨⟨v,hv,hurn⟩,hall⟩ := (hmeasured (fun _ => []) 7 0 sampleConfigs [['v'],['u']]).verdicts
    out hout ⟨['u'],[]⟩ rfl (List.mem_cons_of_mem _ (List.mem_singleton.mpr rfl))
  exact ⟨out,v,hout,hv,hfirst ▸ hall v hv hurn 1⟩

end Validation
end Dataspoke
