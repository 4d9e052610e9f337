import Dataspoke.EventFeed
import Dataspoke.PostgresExtractor
import Dataspoke.RecipeMatcher
import Dataspoke.SecretRefs
import Dataspoke.SourceEvidence

/-!
# Ingestion runs

A run of the pipeline of a source: its secrets, the instance that stands for it in DataHub, the
crawl, the mappings of what it has emitted and the event that it is recorded with.
-/

namespace Dataspoke
namespace Ingestion
namespace Pipeline

open Python Emission

/-- The rows of `events`, and the first id that has not been issued. -/
structure Events where
  table : Table Feed.Event.id
  next_id : ℕ
  fresh : ∀ e ∈ table.rows, e.id < next_id

namespace Events

abbrev rows (s : Events) : List Feed.Event := s.table.rows

def add (s : Events) (mk : ℕ → Feed.Event) (hid : ∀ n, (mk n).id = n) : Events where
  table := s.table.put (mk s.next_id)
  next_id := s.next_id+1
  fresh := by
    intro e he
    rcases Table.mem_put.mp he with rfl | ⟨h,-⟩
    · rw [hid]
      exact Nat.lt_succ_self _
    · exact Nat.lt_succ_of_lt (s.fresh e h)

theorem add_rows (s : Events) (mk : ℕ → Feed.Event) (hid : ∀ n, (mk n).id = n) :
    (s.add mk hid).rows = s.rows++[mk s.next_id] := by
  refine Table.put_rows (Table.get?_eq_none.mpr fun e he => ?_)
  rw [hid]
  exact (s.fresh e he).ne

end Events

structure Store where
  sources : Sources
  mappings : Mappings
  events : Events

/-- The stored configuration of DataHub, as far as a run reads it. -/
structure DatahubConfig where
  service_corpuser_urn : Option Str
  default_env : Option Str

/-- What a run finds outside of the database. -/
structure World where
  toolkit : Toolkit
  remote : Remote Write Str
  backend : Secrets.Backend
  monotonic : ℕ → ℕ
  resolver : Secrets.Resolver
  /-- The text of the error that a recipe is refused with. -/
  secret_message : Items → Secrets.SecretError → Str
  datahub_config : Option DatahubConfig
  run_id : Str
  start_ms : ℕ
  crawl_ms : ℕ
  end_ms : ℕ
  mapped_at : ℕ
  recorded_at : ℤ

structure Call where
  source_id : Str
  dry_run : Bool
  manual : Bool

structure IngestionRunResult where
  run_id : Str
  status : Str
  dry_run : Bool
  discovered_urns : List Str
  emitted_urns : List Str
  errors : List Str
  warnings : List Str

inductive Exc
  | ingestion_source_not_found (source_id : Str)
  | ingestion_run_not_applicable (source_id : Str) (mode : Mode)
  | ingestion_running (source_id : Str)
  | extractor (e : Raised)

/-- What a run leaves, the writes that it has attempted and what it returns. -/
structure Ran where
  store : Store
  attempts : Attempts Write Str
  outcome : Except Exc IngestionRunResult

section Instance

variable (W : World) (c : Call)

def read_datahub_actor_urn (config : Option DatahubConfig) : Str :=
  match config.bind DatahubConfig.service_corpuser_urn with
  | some (x::urn) => x::urn
  | _ => "urn:li:corpuser:dataspoke".toList

def read_datahub_default_env (config : Option DatahubConfig) : Str :=
  match config.bind DatahubConfig.default_env with
  | some (x::env) => x::env
  | _ => "DEV".toList

def runId : Str := "dataspoke-".toList++c.source_id ++ '-'::W.run_id

/-- A write on the instance that stands for the run. -/
def instanceWrite (aspect : Aspect) : Write where
  urn := "urn:li:dataProcessInstance:".toList++c.source_id ++ '-'::W.run_id
  aspect := aspect
  system_metadata := ⟨runId W c,c.source_id,W.start_ms⟩

def startedWrites (source : IngestionSource) : List Write :=
  [.instanceProperties ("dataspoke-".toList++source.platform ++ '-'::W.run_id)
      (if c.manual then .BATCH_AD_HOC else .BATCH_SCHEDULED) W.start_ms
      (read_datahub_actor_urn W.datahub_config),
    .instanceRelationships [] none,.instanceRunEvent .STARTED W.start_ms].map (instanceWrite W c)

def outputWrite (emitted_urns : List Str) : Write :=
  instanceWrite W c (.instanceOutput emitted_urns)

def terminalWrite (success : Bool) : Write :=
  instanceWrite W c
    (.instanceRunEvent (.COMPLETE success "dataspoke".toList (W.end_ms-W.start_ms)) W.end_ms)

/-- `_emit_dpi_started`, its failure only logged. -/
def emit_dpi_started (source : IngestionSource) : Attempts Write Str → Attempts Write Str :=
  fun log => (emitAll W.remote (startedWrites W c source) log).1

def emit_dpi_output (emitted_urns : List Str) (log : Attempts Write Str) : Attempts Write Str :=
  (emit W.remote (outputWrite W c emitted_urns) log).1

def emit_dpi_terminal (success : Bool) (log : Attempts Write Str) : Attempts Write Str :=
  (emit W.remote (terminalWrite W c success) log).1

end Instance

section Run

variable (W : World) (c : Call)

def get_source (sources : Sources) (source_id : Str) : Option IngestionSource :=
  (Uuid.UUID source_id).bind sources.table.get?

def record_source_event (event_type status : Str) (detail : Items) (store : Store) : Store :=
  { store with
    events := store.events.add
      (fun id => ⟨id,ingestionSource,c.source_id,event_type,status,.obj detail,W.recorded_at⟩)
      fun _ => rfl }

def run_report_detail (r : IngestionRunResult) : Items :=
  [("discovered_urns".toList,texts r.discovered_urns),
    ("discovered_urns_count".toList,.num (.fin r.discovered_urns.length)),
    ("emitted_urns".toList,texts r.emitted_urns),
    ("emitted_urns_count".toList,.num (.fin r.emitted_urns.length))]

def resolve (recipe : Items) : Except Secrets.SecretError Items :=
  ((Secrets.resolve_recipe_secrets W.backend W.monotonic recipe).run.run W.resolver).1

/-- The text of the error in the result; the event has the plain one. -/
def secretError (recipe : Items) : Secrets.SecretError → Str
  | .unavailable => "SecretResolverUnavailable: ".toList++W.secret_message recipe .unavailable
  | e => W.secret_message recipe e

def unresolved (store : Store) (recipe : Items) (e : Secrets.SecretError) : Ran where
  store := record_source_event W c INGESTION_FAIL "failure".toList
    [("run_id".toList,.str W.run_id),("error".toList,.str (W.secret_message recipe e)),
      ("phase".toList,.str "secret_resolution".toList)] store
  attempts := []
  outcome := .ok ⟨W.run_id,"error".toList,c.dry_run,[],[],[secretError W recipe e],[]⟩

def aborted (store : Store) (source : IngestionSource) (log : Attempts Write Str) (e : Raised) :
    Ran where
  store := record_source_event W c INGESTION_FAIL "failure".toList
    [("run_id".toList,.str W.run_id),("platform".toList,.str source.platform),
      ("exception".toList,.str (W.toolkit.message e))] store
  attempts := if c.dry_run then log else emit_dpi_terminal W c false log
  outcome := .error (.extractor e)

/-- A real run that has emitted nothing has failed. -/
def finalErrors (r : IngestionResult) : List Str :=
  if !c.dry_run && r.emitted_urns.isEmpty && r.errors.isEmpty then
    if r.warnings.isEmpty then ["No entities ingested from source".toList] else r.warnings
  else r.errors

def records (r : IngestionResult) : Bool :=
  !c.dry_run && (finalErrors c r).isEmpty && !r.emitted_urns.isEmpty

def runResult (r : IngestionResult) : IngestionRunResult where
  run_id := W.run_id
  status := if (finalErrors c r).isEmpty then "success".toList else "error".toList
  dry_run := c.dry_run
  discovered_urns := r.discovered_urns
  emitted_urns := r.emitted_urns
  errors := finalErrors c r
  warnings := r.warnings

/-- The datasets of a real run that has succeeded are mapped to its source. -/
def recordMappings (store : Store) (source : IngestionSource) (r : IngestionResult) : Store :=
  if records c r then
    { store with
      mappings := upsert_dataset_mappings W.mapped_at source.id r.emitted_urns .emitted
        store.mappings }
  else store

def completionDetail (source : IngestionSource) (result : IngestionRunResult) : Items :=
  [("run_id".toList,.str W.run_id),("platform".toList,.str source.platform),
    ("dry_run".toList,.bool c.dry_run)]++run_report_detail result++
    [("errors".toList,texts result.errors),("warnings".toList,texts result.warnings)]

def finished (store : Store) (source : IngestionSource) (log : Attempts Write Str)
    (r : IngestionResult) : Ran :=
  let success := (finalErrors c r).isEmpty
  let log := if records c r then emit_dpi_output W c r.emitted_urns log else log
  let log := if c.dry_run then log else emit_dpi_terminal W c success log
  let result := runResult W c r
  ⟨record_source_event W c (if success then INGESTION_COMPLETE else INGESTION_FAIL)
    (if success then "success".toList else "failure".toList) (completionDetail W c source result)
    (recordMappings W c store source r),log,.ok result⟩

def extract (recipe : Items) (log : Attempts Write Str) :
    Attempts Write Str × Except Raised IngestionResult :=
  run_extractor W.toolkit W.remote
    ⟨c.source_id,recipe,c.dry_run,W.run_id,read_datahub_default_env W.datahub_config,W.crawl_ms⟩ log

def run_inner (store : Store) : Ran :=
  match get_source store.sources c.source_id with
  | none => ⟨store,[],.error (.ingestion_source_not_found c.source_id)⟩
  | some source =>
    if source.mode ≠ .ACTIVE_CUSTOM_MANAGED then
      ⟨store,[],.error (.ingestion_run_not_applicable c.source_id source.mode)⟩
    else
      match resolve W source.recipe with
      | .error e => unresolved W c store source.recipe e
      | .ok recipe =>
        match extract W c recipe (if c.dry_run then [] else emit_dpi_started W c source []) with
        | (log,.error e) => aborted W c store source log e
        | (log,.ok r) => finished W c store source log r

/-- `run`; the lock is taken before the source is read. -/
def run (acquired : Bool) (store : Store) : Ran :=
  if acquired then run_inner W c store
  else ⟨store,[],.error (.ingestion_running c.source_id)⟩

end Run

end Pipeline
end Ingestion
end Dataspoke
