import Dataspoke.SweepEvents
import Dataspoke.SweepMapping
import Dataspoke.SweepSources
import Dataspoke.Transition

/-!
# The sweep

The steps in their order, each on what the one before has committed, and the counters of the
summary. A read that fails where the sweep does not contain it ends the sweep.
-/

namespace Dataspoke
namespace Ingestion

open Python Transition

section Links

variable (env : Runtime)

/-- `id_to_urn.get`. -/
def idToUrn (sources : List SweepSource) (id : ℕ) : Option Str :=
  (sources.find? fun row => row.id = id && row.mode = .DATAHUB_MANAGED &&
    row.parent_source_id.isNone && row.datahub_source_urn.any (· ≠ [])).bind
      (·.datahub_source_urn)

/-- The pipeline name under which `pipeline_to_sources` holds the source. -/
def pipelineOf (sources : List SweepSource) (src : SweepSource) : Option Str :=
  match src.mode with
  | .DATAHUB_MANAGED =>
    match src.parent_source_id with
    | none => src.datahub_source_urn.filter (· ≠ [])
    | some parent => idToUrn sources parent
  | .ACTIVE_CUSTOM_MANAGED => some (env.str_uuid src.id)
  | .PASSIVE => none

/-- The pairs that step 4 upserts. -/
def linkedPairs (sources : List SweepSource) (pipeline_map : List (Str × Option Str)) :
    List (ℕ × Str) :=
  pipeline_map.flatMap fun (dataset_urn,pipeline_name) =>
    match pipeline_name with
    | none => []
    | some name =>
      if name.isEmpty then []
      else (sources.filter (pipelineOf env sources · = some name)).map fun src =>
        (src.id,dataset_urn)

/-- The conflict clause of the `pipeline_name` upsert. -/
def promote (now : ℕ) (row : IngestionSourceDataset) : Option IngestionSourceDataset :=
  if row.derivation ≠ .emitted then
    some { row with derivation := .pipeline_name, last_seen_at := now }
  else none

/-- `existing_pipeline_keys`. -/
def existingPipelineKeys (sources : List SweepSource) (mappings : Mappings) : List (ℕ × Str) :=
  let candidate_source_ids :=
    (sources.filter fun src => (pipelineOf env sources src).isSome).map (·.id)
  (mappings.rows.filter fun row =>
    row.source_id ∈ candidate_source_ids && row.derivation = .pipeline_name).map (·.key)

/-- The upserts of step 4, with the count of new links. -/
def linkPipelines (now : ℕ) (sources : List SweepSource) (pipeline_map : List (Str × Option Str))
    (mappings : Mappings) : Mappings × ℕ :=
  Table.upserts (newMapping now .pipeline_name) (promote now)
    (fun k => k ∉ existingPipelineKeys env sources mappings) (linkedPairs env sources pipeline_map)
    (mappings,0)

end Links

section Sweep

structure DatasetAttributeRead where
  tag_urns : List Str
  glossary_term_urns : List Str
  is_primary : Bool

/-- What DataHub answers to the calls of a sweep; `none` where a read fails. -/
structure Estate where
  dh_sources : Option (List ManagedSource)
  datasets : Option (List Str)
  attributes : Option (List (Str × DatasetAttributeRead))
  pipelines : Option (List (Str × Option Str))
  responses : Responses

inductive SweepFailure
  | listing
  | sources (e : SweepError)
  | enumeration
  | pipelineNames
  | interfaceError

structure Summary where
  sources_synced : ℕ
  sources_removed : ℕ
  datasets_mapped : ℕ
  pipeline_links : ℕ
  events_mirrored : ℕ
  last_ingested_observed : ℕ
  registry_inserted : ℕ
  registry_marked_true : ℕ
  registry_marked_false : ℕ
  attrs_synced : ℕ
  sources_zero_coverage : ℕ
  sources_pattern_degraded : ℕ

def attributeRecord (item : Str × DatasetAttributeRead) : Registry.DatasetAttributes where
  dataset_urn := item.1
  origin := origin_from_dataset_urn item.1
  platform_urn := platform_urn_from_dataset_urn item.1
  tag_urns := item.2.tag_urns
  glossary_term_urns := item.2.glossary_term_urns
  is_primary := item.2.is_primary

variable (env : Runtime) (now : ℕ) (estate : Estate)

/-- `_sync_dataset_attributes`. -/
def sync_dataset_attributes (registry : Registry.Db) : Registry.Db × ℕ :=
  match estate.attributes with
  | none => (registry,0)
  | some attributes =>
    Registry.upsert_dataset_attributes now registry (attributes.map attributeRecord) none

/-- `ON DELETE CASCADE` of the mappings, for the sources that are gone. -/
def cascadeMappings (before after : Sources) (mappings : Mappings) : Mappings :=
  mappings.remove fun row => before.rows.any (·.id = row.source_id) &&
    !after.rows.any (·.id = row.source_id)

def stepSources (db : Db) : Db × Except SweepFailure SourceCounts :=
  match estate.dh_sources with
  | none => (db,.error .listing)
  | some dh_sources =>
    let r := sweepSources env now dh_sources db.sources
    ({ db with sources := r.1, mappings := cascadeMappings db.sources r.1 db.mappings },
      match r.2 with
      | .error e => .error (.sources e)
      | .ok counts => .ok counts)

structure DatasetCounts where
  mapping : MappingCounts
  registry : Registry.ReconcileCounts
  attrs_synced : ℕ

/-- Steps 2, 2b and 3, on the enumerated datasets. -/
def stepDatasets (urns : List Str) (db : Db) : Db × DatasetCounts :=
  let m := sweepMappings env now urns db.sources.snapshot db.mappings
  let r := Registry.reconcile_registry now db.registry urns
  let a := sync_dataset_attributes now estate r.1
  ({ db with mappings := m.1, registry := a.1 },⟨m.2,r.2,a.2⟩)

/-- Step 4, where there are datasets; no count where the read fails. -/
def stepLinks (urns : List Str) (db : Db) : Db × Option ℕ :=
  if urns.isEmpty then (db,some 0)
  else
    match estate.pipelines with
    | none => (db,none)
    | some pipeline_map =>
      let l := linkPipelines env now db.sources.snapshot pipeline_map db.mappings
      ({ db with mappings := l.1 },some l.2)

def stepEvents (db : Db) : Db × Option EventCounts :=
  let e := sweepEvents now estate.responses db.sources.snapshot db.mappings db.events
  ({ db with events := e.1 },e.2)

structure TableCounts where
  sources : SourceCounts
  datasets : DatasetCounts
  pipeline_links : ℕ

/-- The steps before the events: what they commit, and their counts unless one fails. -/
def sweepTables (db : Db) : Db × Except SweepFailure TableCounts :=
  match stepSources env now estate db with
  | (db,.error e) => (db,.error e)
  | (db,.ok sources) =>
    match estate.datasets with
    | none => (db,.error .enumeration)
    | some urns =>
      let d := stepDatasets env now estate urns db
      match stepLinks env now estate urns d.1 with
      | (db,none) => (db,.error .pipelineNames)
      | (db,some links) => (db,.ok ⟨sources,d.2,links⟩)

def summary (t : TableCounts) (e : EventCounts) : Summary where
  sources_synced := t.sources.sources_synced
  sources_removed := t.sources.sources_removed
  datasets_mapped := t.datasets.mapping.datasets_mapped
  pipeline_links := t.pipeline_links
  events_mirrored := e.events_mirrored
  last_ingested_observed := e.last_ingested_observed
  registry_inserted := t.datasets.registry.inserted
  registry_marked_true := t.datasets.registry.marked_true
  registry_marked_false := t.datasets.registry.marked_false
  attrs_synced := t.datasets.attrs_synced
  sources_zero_coverage := t.datasets.mapping.sources_zero_coverage
  sources_pattern_degraded := t.datasets.mapping.sources_pattern_degraded

/-- `_run_sweep`: the tables as they are committed when it ends or raises, and the summary. -/
def run_sweep (db : Db) : Db × Except SweepFailure Summary :=
  match sweepTables env now estate db with
  | (db,.error e) => (db,.error e)
  | (db,.ok tables) =>
    match stepEvents now estate db with
    | (db,none) => (db,.error .interfaceError)
    | (db,some events) => (db,.ok (summary tables events))

end Sweep

section Identity

variable {env : Runtime} {now : ℕ} {estate : Estate} {db : Db}

theorem stepSources_events : (stepSources env now estate db).1.events = db.events := by
  rw [stepSources]
  split <;> rfl

theorem stepLinks_events {urns : List Str} :
    (stepLinks env now estate urns db).1.events = db.events := by
  rw [stepLinks]
  split
  · rfl
  · split <;> rfl

theorem sweepTables_events : (sweepTables env now estate db).1.events = db.events := by
  have hsources := @stepSources_events env now estate db
  rw [sweepTables]
  split
  · rename_i h
    rw [h] at hsources
    exact hsources
  · rename_i db' _ h
    rw [h] at hsources
    split
    · exact hsources
    · rename_i urns _
      have hlinks :=
        @stepLinks_events env now estate (stepDatasets env now estate urns db').1 urns
      dsimp only
      split
      · rename_i h'
        rw [h'] at hlinks
        exact hlinks.trans hsources
      · rename_i h'
        rw [h'] at hlinks
        exact hlinks.trans hsources

/-- The events after a sweep: as they were, or as step 5 leaves them. -/
theorem run_sweep_events :
    (∃ e, sweepTables env now estate db = ((sweepTables env now estate db).1,.error e) ∧
      (run_sweep env now estate db).1.events = db.events) ∨
    ∃ t counts, sweepTables env now estate db = (t,.ok counts) ∧ t.events = db.events ∧
      (run_sweep env now estate db).1.events =
        (sweepEvents now estate.responses t.sources.snapshot t.mappings t.events).1 := by
  have htables := @sweepTables_events env now estate db
  rw [run_sweep]
  split
  · rename_i t e h
    rw [h] at htables
    exact .inl ⟨e,by rw [h],htables⟩
  · rename_i t counts h
    rw [h] at htables
    refine .inr ⟨t,counts,h,htables,?_⟩
    split
    · rename_i h'
      exact congrArg (fun r : Db × Option EventCounts => r.1.events) h'.symm
    · rename_i h'
      exact congrArg (fun r : Db × Option EventCounts => r.1.events) h'.symm

inductive EventCall
  | sweep (env : Runtime) (now : ℕ) (estate : Estate)
  /-- Anything else, which may book events of its own and write the other tables. -/
  | other

/-- Sweeps one after the other, with whatever happens between them. -/
def eventSystem : System Db EventCall where
  init db := Unique db.events
  step db call db' :=
    match call with
    | .sweep env now estate => (run_sweep env now estate db).1 = db'
    | .other => ∃ new, db'.events = db.events ++ new ∧
      ∀ e ∈ new, runKey e = none ∧ observationKey e = none

theorem eventSystem_sweep (env : Runtime) (now : ℕ) (estate : Estate) (db : Db) :
    eventSystem.step db (.sweep env now estate) (run_sweep env now estate db).1 :=
  rfl

/-- A sweep that comes to its events books every instant that it accepts. -/
def BooksAll (db : Db) : EventCall → Prop
  | .sweep env now estate => ∀ t counts, sweepTables env now estate db = (t,.ok counts) →
    Booked now estate.responses t.sources.snapshot t.mappings
      (run_sweep env now estate db).1.events
  | .other => True

theorem run_sweep_unique (hu : Unique db.events) :
    Unique (run_sweep env now estate db).1.events := by
  rcases run_sweep_events with
    ⟨e,-,h⟩ | ⟨t,counts,-,ht,h⟩
  · rwa [h]
  · rw [h]
    exact sweepEvents_unique (ht ▸ hu)

theorem booksAll (db : Db) (call : EventCall) : BooksAll db call := by
  cases call with
  | other => trivial
  | sweep env now estate =>
    intro t counts ht
    rcases run_sweep_events with
      ⟨e,he,-⟩ | ⟨t',counts',ht',-,h⟩
    · rw [ht] at he
      cases (Prod.mk.inj he).2
    · rw [ht] at ht'
      obtain ⟨rfl,-⟩ := Prod.mk.inj ht'
      rw [h]
      exact sweepEvents_booked

theorem Unique.append {events new : List Event} (hu : Unique events)
    (hnew : ∀ e ∈ new, runKey e = none ∧ observationKey e = none) : Unique (events ++ new) := by
  have hrun : new.filterMap runKey = [] := List.filterMap_eq_nil_iff.mpr fun e he => (hnew e he).1
  have hobs : new.filterMap observationKey = [] :=
    List.filterMap_eq_nil_iff.mpr fun e he => (hnew e he).2
  constructor
  · rw [List.filterMap_append,hrun,List.append_nil]
    exact hu.runs
  · rw [List.filterMap_append,hobs,List.append_nil]
    exact hu.observations

/-- Over any sweeps an execution request has one event at most, and so has an observed instant;
what a sweep accepts is booked after it. -/
theorem events_identity {db db' : Db} {h : List (Db × EventCall)} (hr : Run eventSystem db h db')
    (hi : Unique db.events) : Visits (fun db => Unique db.events) h db' ∧ Meets BooksAll h := by
  refine ⟨?_,fun p _ => booksAll p.1 p.2⟩
  refine hr.visits (G:=fun _ _ => True) hi ?_ fun _ _ => trivial
  intro db call db' hu _ hstep
  cases call with
  | sweep env now estate =>
    cases hstep
    exact run_sweep_unique hu
  | other =>
    obtain ⟨new,he,hnew⟩ := hstep
    rw [he]
    exact hu.append hnew

def emptyDb : Db := ⟨noSources,.empty _,[],.empty _⟩

def succeededRequest : ExecutionRequest :=
  ⟨"urn:li:dataHubExecutionRequest:1".toList,"SUCCESS".toList,.num (.fin 1000),.null,.null⟩

def sampleEstate : Estate where
  dh_sources := some [regularSource]
  datasets := some []
  attributes := none
  pipelines := some []
  responses := ⟨fun _ => some [succeededRequest,succeededRequest],fun _ _ => none,.failed⟩

theorem events_identity_sample : ∃ h db', Run eventSystem emptyDb h db' ∧
    (Visits (fun db => Unique db.events) h db' ∧ Meets BooksAll h) ∧ h.length = 2 := by
  have hr := Run.step (.step .refl (eventSystem_sweep recipeRuntime 0 sampleEstate emptyDb))
    (eventSystem_sweep recipeRuntime 5 sampleEstate _)
  exact ⟨_,_,hr,events_identity hr ⟨List.nodup_nil,List.nodup_nil⟩,rfl⟩

end Identity

end Ingestion
end Dataspoke
