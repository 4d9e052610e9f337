import Dataspoke.Calendar
import Dataspoke.DatasetScope
import Dataspoke.Transition

/-!
# Metrics

Metric definitions, the results that runs append, and the verdict store that holds the latest
run only. A request that raises is rolled back.
-/

namespace Dataspoke
namespace Metrics

open Python DatasetScope Sql Transition
open Registry (DatasetRegistry datasetUrnRe)

/-- A value of a request, with ints and floats told apart. -/
inductive Value
  | none
  | bool (b : Bool)
  | int (n : ℤ)
  | float (x : Number)
  | str (s : Str)
  | list (xs : List Value)
  | dict (items : List (Str × Value))

inductive Error
  | entity_not_found (entity_type entity_id : Str)
  | conflict (error_code : String) (message : List Piece)
  | precondition_failed (error_code : String) (message : List Piece)
  | invalid_dataset_urn (urn : Str)
  | dataset_filter (e : DatasetFilter.Exc)
  | integrity
  | measurer

/-- `timedelta(seconds=seconds)` in microseconds; `none` where it overflows. -/
def timedelta (seconds : ℤ) : Option ℤ :=
  if (seconds/86400).natAbs ≤ 999999999 then some (seconds*1000000) else none

def DATETIME_MIN : ℤ := Calendar.dayFromYear 1*86400000000

def DATETIME_MAX : ℤ := Calendar.dayFromYear 10000*86400000000-1

/-- `t - timedelta(seconds=seconds)`; `none` where the result is no datetime. -/
def secondsBefore (t seconds : ℤ) : Option ℤ :=
  (timedelta seconds).bind fun delta =>
    if DATETIME_MIN ≤ t-delta ∧ t-delta ≤ DATETIME_MAX then some (t-delta) else none

structure MetricDefinition where
  id : Str
  mode : Str
  metric_type : Str
  title : Str
  description : Str
  metrics : List Value
  metric_conf : List (Str × Value)
  dataset_filter : Str
  schedule_tier : Option Str
  is_enabled : Bool
  created_at : ℕ
  updated_at : ℕ

structure DatasetVerdict where
  urn : Str
  met : Bool
  evidence_at : Option ℕ := none
  detail : List (Str × Value) := []

structure Breakdown where
  dataset_count : ℕ
  datasets : List (Str × List (Str × Value))

structure MetricResult where
  metric_id : Str
  values : List (Str × Number)
  breakdown : Breakdown
  measured_at : ℕ

structure MetricDatasetResult where
  metric_id : Str
  dataset_urn : Str
  met : Bool
  evidence_at : Option ℕ
  detail : List (Str × Value)
  measured_at : ℕ

def MetricDatasetResult.key (row : MetricDatasetResult) : Str × Str :=
  (row.metric_id,row.dataset_urn)

/-- The three tables; `metric_results` in the order of the inserts. -/
structure Db where
  metric_definitions : Table MetricDefinition.id
  metric_results : List MetricResult
  metric_dataset_results : Table MetricDatasetResult.key

def Db.empty : Db := ⟨Table.empty _,[],Table.empty _⟩

def emittedKeys (metric_type : Str) : List Str :=
  if metric_type = "ingestion-freshness".toList then ["total".toList,"ingested_in_time".toList]
  else if metric_type = "validation-score".toList then
    ["valid_confd".toList,"valid_in_time".toList]
  else if metric_type = "doc-health".toList then ["total".toList,"doc_health".toList]
  else []

def hexDigit (c : Char) : Bool :=
  ('0' ≤ c && c ≤ '9') || ('A' ≤ c && c ≤ 'F') || ('a' ≤ c && c ≤ 'f')

/-- `_COLOR_RE.match`; the `$` of the pattern also stands before a final line feed. -/
def colorRe (color : Str) : Bool :=
  let body := if color.getLast? = some '\n' then color.dropLast else color
  body.head? == some '#' && body.length == 7 && body.tail.all hexDigit

def MAX_TIME_WINDOW_SEC : ℕ := 315360000

def is_valid_time_window_sec : Option Value → Bool
  | some (.int n) => 1 ≤ n && n ≤ MAX_TIME_WINDOW_SEC
  | _ => false

def time_window_sec_error (metric_type : Str) : List Piece :=
  [.text "metric_conf.time_window_sec must be an int in [1, ",.num MAX_TIME_WINDOW_SEC,
    .text "] for metric_type '",.text (String.ofList metric_type),.text "'"]

/-- `{names}` of a list of strings in an f-string. -/
def listPieces (names : List Str) : List Piece :=
  [.text "["] ++ (names.map Piece.repr).intersperse (.text ", ") ++ [.text "]"]

/-- The checks of one descriptor; its name and its index. -/
def seriesEntry (entry : Value) : Except Error (Str × ℤ) :=
  match entry with
  | .dict items =>
    match get? "name".toList items with
    | some (.str name) =>
      if name.isEmpty then
        .error (.precondition_failed "INVALID_PARAMETER" [.text "metrics[].name is required"])
      else
        match get? "color".toList items with
        | some (.str color) =>
          if colorRe color then
            match get? "idx".toList items with
            | some (.int idx) =>
              if idx < 1 then .error (.precondition_failed "INVALID_PARAMETER"
                [.text "metrics[].idx must be a positive integer"])
              else .ok (name,idx)
            | _ => .error (.precondition_failed "INVALID_PARAMETER"
                [.text "metrics[].idx must be a positive integer"])
          else .error (.precondition_failed "INVALID_PARAMETER"
            [.text "metrics[].color must be a #RRGGBB hex string"])
        | _ => .error (.precondition_failed "INVALID_PARAMETER"
            [.text "metrics[].color must be a #RRGGBB hex string"])
    | _ =>
      .error (.precondition_failed "INVALID_PARAMETER" [.text "metrics[].name is required"])
  | _ => .error (.precondition_failed "INVALID_PARAMETER"
      [.text "metrics[] entries must be {name, color, idx} objects"])

def validate_series (metric_type : Str) (series : List Value) : Except Error Unit := do
  let allowed := emittedKeys metric_type
  let entries ← series.mapM seriesEntry
  let names := entries.map Prod.fst
  let idxs := entries.map Prod.snd
  let unknown := names.filter fun name => name ∉ allowed
  if unknown ≠ [] then
    throw (.precondition_failed "INVALID_PARAMETER"
      ([.text "metrics[] contains keys not emitted by '",.text (String.ofList metric_type),
        .text "': "] ++ listPieces (sortedSet unknown) ++ [.text ". Allowed: "] ++
        listPieces (sortedSet allowed)))
  if ¬ names.Nodup then
    throw (.precondition_failed "INVALID_PARAMETER" [.text "metrics[].name must be unique"])
  if ¬ idxs.Nodup then
    throw (.precondition_failed "INVALID_PARAMETER" [.text "metrics[].idx must be unique"])

def check_dataset_urn_literals (ast : DatasetFilter.FilterAst) : Except Error Unit :=
  (literal_dataset_urns ast).forM fun urn =>
    if datasetUrnRe urn then .ok () else .error (.invalid_dataset_urn urn)

def validate_dataset_filter_service (dataset_filter : Str) : Except Error Unit := do
  let ast ← (DatasetFilter.parse_filter (some dataset_filter)).mapError .dataset_filter
  check_dataset_urn_literals ast

/-- The arguments that `create_metric_config` and `replace_metric_config` share. -/
structure Config where
  mode : Str
  metric_type : Str
  title : Str
  description : Str
  metrics : List Value
  metric_conf : List (Str × Value)
  dataset_filter : Str
  schedule_tier : Option Str := none
  is_enabled : Bool := false

/-- The fields of a patch; `none` is an absent key or the value `None`. -/
structure Patch where
  mode : Option Str := none
  metric_type : Option Str := none
  title : Option Str := none
  description : Option Str := none
  metrics : Option (List Value) := none
  metric_conf : Option (List (Str × Value)) := none
  dataset_filter : Option Str := none
  schedule_tier : Option Str := none
  is_enabled : Option Bool := none

/-- The row of a metric whose columns are those of a request. -/
def Config.row (config : Config) (metric_id : Str) (created_at updated_at : ℕ) :
    MetricDefinition where
  id := metric_id
  mode := config.mode
  metric_type := config.metric_type
  title := config.title
  description := config.description
  metrics := config.metrics
  metric_conf := config.metric_conf
  dataset_filter := config.dataset_filter
  schedule_tier := config.schedule_tier
  is_enabled := config.is_enabled
  created_at := created_at
  updated_at := updated_at

def Patch.apply (patch : Patch) (row : MetricDefinition) : MetricDefinition :=
  { row with
    mode := patch.mode.getD row.mode
    metric_type := patch.metric_type.getD row.metric_type
    title := patch.title.getD row.title
    description := patch.description.getD row.description
    metrics := patch.metrics.getD row.metrics
    metric_conf := patch.metric_conf.getD row.metric_conf
    dataset_filter := patch.dataset_filter.getD row.dataset_filter
    schedule_tier := patch.schedule_tier.orElse fun _ => row.schedule_tier
    is_enabled := patch.is_enabled.getD row.is_enabled }

def get_metric (db : Db) (metric_id : Str) : Except Error MetricDefinition :=
  match db.metric_definitions.get? metric_id with
  | none => .error (.entity_not_found "metric".toList metric_id)
  | some row => .ok row

def Db.putDefinition (db : Db) (row : MetricDefinition) : Db :=
  { db with metric_definitions := db.metric_definitions.put row }

def create_metric_config (db : Db) (now : ℕ) (metric_id : Str) (config : Config) :
    Except Error Db := do
  validate_dataset_filter_service config.dataset_filter
  validate_series config.metric_type config.metrics
  if (db.metric_definitions.get? metric_id).isSome then
    throw (.conflict "METRIC_EXISTS"
      [.text "Metric ",.text (String.ofList metric_id),.text " already exists"])
  return db.putDefinition (config.row metric_id now now)

def replace_metric_config (db : Db) (now : ℕ) (metric_id : Str) (config : Config) :
    Except Error Db := do
  validate_dataset_filter_service config.dataset_filter
  validate_series config.metric_type config.metrics
  let existing ← get_metric db metric_id
  return db.putDefinition (config.row metric_id existing.created_at now)

/-- The cross-field checks on the merged row. -/
def validate_merged (row : MetricDefinition) : Except Error Unit := do
  if row.metric_type ∈ ["ingestion-freshness".toList,"validation-score".toList] then
    if !is_valid_time_window_sec (get? "time_window_sec".toList row.metric_conf) then
      throw (.precondition_failed "INVALID_PARAMETER" (time_window_sec_error row.metric_type))
  else if row.metric_type = "doc-health".toList then
    if !row.metric_conf.isEmpty then
      throw (.precondition_failed "INVALID_PARAMETER"
        [.text "metric_conf must be \x7b\x7d for metric_type 'doc-health'"])
  validate_series row.metric_type row.metrics

def patch_metric_config (db : Db) (now : ℕ) (metric_id : Str) (patch : Patch) :
    Except Error Db := do
  let row ← get_metric db metric_id
  if let some dataset_filter := patch.dataset_filter then
    validate_dataset_filter_service dataset_filter
  let merged := patch.apply row
  validate_merged merged
  return db.putDefinition { merged with updated_at := now }

def delete_metric_config (db : Db) (metric_id : Str) : Except Error Db := do
  let row ← get_metric db metric_id
  return { metric_definitions := db.metric_definitions.remove fun r => r.id = row.id
           metric_results := db.metric_results.filter fun r => r.metric_id ≠ metric_id
           metric_dataset_results :=
             db.metric_dataset_results.remove fun r => r.metric_id = metric_id }

/-- What a run reads outside the three tables; `measure` is the measurer of a metric type. -/
structure World where
  registry : Registry.Db
  rows : Order DatasetRegistry
  measure : Str → List Str → List (Str × Value) → ℕ →
    Except Error (List (Str × Number) × List DatasetVerdict)

structure Measurement where
  values : List (Str × Number)
  verdicts : List DatasetVerdict
  unresolved_urns : List Str
  dataset_count : ℕ

structure MetricRunResult where
  run_id : ℕ
  metric_id : Str
  values : List (Str × Number)
  dry_run : Bool
  unresolved_urns : List Str
  dataset_count : ℕ
  affected_count : ℕ

structure Clock where
  now : ℕ
  measured_at : ℕ

def list_measurers : List Str :=
  ["doc-health".toList,"ingestion-freshness".toList,"validation-score".toList]

def declaredSeries (metrics : List Value) : List Value :=
  metrics.filterMap fun
    | .dict items => get? "name".toList items
    | _ => none

/-- `k in declared` for a key. -/
def declares (declared : List Value) (key : Str) : Bool :=
  declared.any fun
    | .str name => name = key
    | _ => false

/-- `_measure`. -/
def measure (world : World) (definition : MetricDefinition) (now : ℕ) :
    Except Error Measurement := do
  let scope ← (resolve_dataset_scope world.registry world.rows
    (some definition.dataset_filter) none).mapError .dataset_filter
  if definition.metric_type ∉ list_measurers then
    throw (.precondition_failed "INVALID_PARAMETER"
      ([.text "Unsupported metric_type: '",.text (String.ofList definition.metric_type),
        .text "'. Supported: "] ++
        (list_measurers.map fun m => .text ("'" ++ String.ofList m ++ "'")).intersperse
          (.text ", ") ++ [.text "."]))
  let (all_values,verdicts) ←
    world.measure definition.metric_type scope.resolved_urns definition.metric_conf now
  let declared := declaredSeries definition.metrics
  let values := if declared.isEmpty then all_values
    else all_values.filter fun item => declares declared item.1
  return ⟨values,verdicts,scope.unresolved_urns,scope.resolved_urns.length⟩

/-- `_breakdown_from_verdicts`. -/
def breakdown_from_verdicts (verdicts : List DatasetVerdict) (dataset_count : ℕ) : Breakdown where
  dataset_count := dataset_count
  datasets := (verdicts.filter (!·.met)).map fun verdict => (verdict.urn,verdict.detail)

def VERDICT_CHUNK : ℕ := 500

def verdictRow (metric_id : Str) (measured_at : ℕ) (verdict : DatasetVerdict) :
    MetricDatasetResult where
  metric_id := metric_id
  dataset_urn := verdict.urn
  met := verdict.met
  evidence_at := verdict.evidence_at
  detail := verdict.detail
  measured_at := measured_at

/-- One row of an `INSERT`; a second row with its key is an `IntegrityError`. -/
def insertVerdict (rows : Table MetricDatasetResult.key) (row : MetricDatasetResult) :
    Except Error (Table MetricDatasetResult.key) :=
  if (rows.get? row.key).isSome then .error .integrity else .ok (rows.put row)

/-- `_replace_dataset_verdicts`. -/
def replace_dataset_verdicts (db : Db) (metric_id : Str) (verdicts : List DatasetVerdict)
    (measured_at : ℕ) : Except Error Db := do
  let kept := db.metric_dataset_results.remove fun row => row.metric_id = metric_id
  if verdicts.isEmpty then
    return { db with metric_dataset_results := kept }
  let payload := verdicts.map (verdictRow metric_id measured_at)
  let rows ← (slices VERDICT_CHUNK payload).foldlM (fun rows chunk =>
    chunk.foldlM insertVerdict rows) kept
  return { db with metric_dataset_results := rows }

def run_inner (db : Db) (world : World) (clock : Clock) (run_id : ℕ) (metric_id : Str)
    (dry_run : Bool) (scheduled_at : Option ℕ) : Except Error (Db × MetricRunResult) := do
  let definition ← get_metric db metric_id
  if !definition.is_enabled && !dry_run then
    throw (.conflict "METRIC_DISABLED"
      [.text "Metric ",.text (String.ofList metric_id),
        .text " is disabled; only dry-run is permitted"])
  let now := scheduled_at.getD clock.now
  let m ← measure world definition now
  let breakdown := breakdown_from_verdicts m.verdicts m.dataset_count
  let result : MetricRunResult := ⟨run_id,metric_id,m.values,dry_run,m.unresolved_urns,
    breakdown.dataset_count,breakdown.datasets.length⟩
  if dry_run then
    return (db,result)
  let row : MetricResult := ⟨metric_id,m.values,breakdown,clock.measured_at⟩
  let db ← replace_dataset_verdicts { db with metric_results := db.metric_results ++ [row] }
    metric_id m.verdicts clock.measured_at
  return (db,result)

/-- `run`; `acquired` is the reply of the lock, true also without a cache. -/
def run (db : Db) (world : World) (clock : Clock) (acquired : Bool) (run_id : ℕ)
    (metric_id : Str) (dry_run : Bool) (scheduled_at : Option ℕ) :
    Except Error (Db × MetricRunResult) :=
  if acquired then run_inner db world clock run_id metric_id dry_run scheduled_at
  else .error (.conflict "METRIC_RUNNING"
    [.text "Metric measurement is already running for ",.text (String.ofList metric_id)])

inductive Op
  | create (metric_id : Str) (config : Config)
  | replace (metric_id : Str) (config : Config)
  | patch (metric_id : Str) (patch : Patch)
  | delete (metric_id : Str)
  | run (world : World) (acquired : Bool) (run_id : ℕ) (metric_id : Str) (dry_run : Bool)
    (scheduled_at : Option ℕ)

/-- One request, its readings of the clock with it. -/
def request (db : Db) (clock : Clock) : Op → Except Error Db
  | .create metric_id config => create_metric_config db clock.now metric_id config
  | .replace metric_id config => replace_metric_config db clock.now metric_id config
  | .patch metric_id patch => patch_metric_config db clock.now metric_id patch
  | .delete metric_id => delete_metric_config db metric_id
  | .run world acquired run_id metric_id dry_run scheduled_at =>
    (run db world clock acquired run_id metric_id dry_run scheduled_at).map Prod.fst

/-- The tables after a request; one that raises leaves them as they are. -/
def next (db : Db) (a : Clock × Op) : Db :=
  match request db a.1 a.2 with
  | .ok db' => db'
  | .error _ => db

def system : System Db (Clock × Op) := ofFun (· = Db.empty) fun db a => some (next db a)

end Metrics
end Dataspoke
