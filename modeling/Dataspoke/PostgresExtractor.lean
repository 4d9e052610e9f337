import Dataspoke.Emission
import Dataspoke.IngestionModels

/-!
# The PostgreSQL extractor

What an ingestion run reads from a database and writes to DataHub. The language, the SDK and the
driver are parameters: `int`, `str`, `make_dataset_urn`, the container keys and `asyncpg`.
-/

namespace Dataspoke
namespace Ingestion
namespace Pipeline

open Python Emission

/-- A column as the query of the extractor returns it. -/
structure Record where
  table_schema : Str
  table_name : Str
  column_name : Str
  data_type : Str
  is_nullable : Str
  column_comment : Option Str
  table_comment : Option Str

inductive FieldType
  | number | boolean | string | date | time | bytes | array

structure SchemaField where
  fieldPath : Str
  nativeDataType : Str
  type : FieldType
  nullable : Bool
  description : Option Str

inductive RunType
  | BATCH_AD_HOC | BATCH_SCHEDULED

inductive RunStatus
  | STARTED
  /-- With the result and the duration of the run. -/
  | COMPLETE (success : Bool) (nativeResultType : Str) (durationMillis : ℤ)

/-- The aspects that a run emits; `generated` is one that the SDK has built. -/
inductive Aspect
  | status (removed : Bool)
  | container (container : Str)
  | browsePathsV2 (path : List (Str × Str))
  | datasetProperties (name qualifiedName description : Str) (customProperties : List (Str × Str))
  | schemaMetadata (schemaName platform : Str) (version : ℕ) (hash rawSchema : Str)
    (fields : List SchemaField)
  | generated (aspect : Json)
  | instanceProperties (name : Str) (type : RunType) (time : ℕ) (actor : Str)
  | instanceRelationships (upstreamInstances : List Str) (parentTemplate : Option Str)
  | instanceRunEvent (status : RunStatus) (timestampMillis : ℕ)
  | instanceOutput (outputs : List Str)

structure SystemMetadata where
  runId : Str
  pipelineName : Str
  lastObserved : ℕ

/-- `emit_aspect(urn, aspect, system_metadata)`. -/
structure Write where
  urn : Str
  aspect : Aspect
  system_metadata : SystemMetadata

/-- `DatabaseKey`, and `SchemaKey` where it has a schema. -/
structure ContainerKey where
  database : Str
  schema : Option Str
  env : Str

structure Mcp where
  entityUrn : Option Str
  aspect : Option Json

/-- The exceptions that leave the extractor. -/
inductive Raised
  | attribute_error
  | type_error
  /-- `AllowDenyPattern` refuses the lists, or a pattern. -/
  | pattern_error
  /-- The database is not a text. -/
  | validation_error
  | urn_error
  | read (message : Str)

structure Toolkit extends Runtime where
  /-- `int` of a text, `none` where it raises a `ValueError`. -/
  int : Str → Option ℤ
  /-- A value in an f-string. -/
  str : Json → Str
  message : Raised → Str
  make_dataset_urn : Str → Str → Str → Option Str
  as_urn : ContainerKey → Str
  gen_containers : ContainerKey → List Mcp
  /-- `asyncpg.connect` by host, port, user, password and database, and the query. -/
  connect : Json → ℤ → Json → Json → Json → Except Str (Except Str (List Record))

structure IngestionResult where
  discovered_urns : List Str
  emitted_urns : List Str
  errors : List Str
  warnings : List Str

/-- The columns of one table, with the URN of its dataset. -/
structure SourceTable where
  schema : Str
  table : Str
  urn : Str
  columns : List Record

structure Survey where
  database : Str
  env : Str
  tables : List SourceTable

section Survey

variable (T : Toolkit)

def pgToDatahubType : List (Str × FieldType) :=
  [("integer".toList,.number),("bigint".toList,.number),("smallint".toList,.number),
    ("numeric".toList,.number),("real".toList,.number),("double precision".toList,.number),
    ("boolean".toList,.boolean),("text".toList,.string),("character varying".toList,.string),
    ("character".toList,.string),("varchar".toList,.string),("char".toList,.string),
    ("date".toList,.date),("timestamp with time zone".toList,.time),
    ("timestamp without time zone".toList,.time),("time with time zone".toList,.time),
    ("time without time zone".toList,.time),("jsonb".toList,.string),("json".toList,.string),
    ("uuid".toList,.string),("bytea".toList,.bytes),("ARRAY".toList,.array)]

/-- `recipe.get("source", {})`, where it has a `get`. -/
def recipeSource (recipe : Items) : Except Raised Items :=
  match get? sourceKey recipe with
  | none => .ok []
  | some (.obj source) => .ok source
  | some _ => .error .attribute_error

def recipeConfig (recipe : Items) : Except Raised Items := do
  match get? configKey (← recipeSource recipe) with
  | none => .ok []
  | some (.obj config) => .ok config
  | some _ => .error .attribute_error

/-- `":" in host_port`, and `rsplit` where it is. -/
def hostAndPort : Json → Except Raised (Json × ℤ)
  | .str s =>
    match splitLast ':' s with
    | some (host,port_str) => .ok (.str host,(T.int port_str).getD 5432)
    | none => .ok (.str s,5432)
  | .arr xs =>
    if xs.any fun x => match x with
      | .str s => s = [':']
      | _ => false then .error .attribute_error
    else .ok (.arr xs,5432)
  | .obj items =>
    if (get? [':'] items).isSome then .error .attribute_error else .ok (.obj items,5432)
  | _ => .error .type_error

def parse_env_from_config (config : Items) (default_env : Str) : Str :=
  match get? "env".toList config with
  | some (.str env) => env
  | _ => default_env

/-- The filter on schemas; none where the SDK cannot be imported. -/
def schemaFilter (config : Items) : Except Raised (Option Matcher) :=
  let patterns := (get? schemaPatternKey config).bind allowAndDeny
  let (allow,deny) := patterns.getD (.arr [.str ".*".toList],.arr [])
  match T.allowDenyPattern with
  | none => .ok none
  | some adp =>
    match adp allow deny with
    | none => .error .pattern_error
    | some allowed => .ok (some allowed)

/-- `tables.setdefault((schema, table), []).append(row)`. -/
def addRow (row : Record) : List ((Str × Str) × List Record) → List ((Str × Str) × List Record)
  | [] => [((row.table_schema,row.table_name),[row])]
  | (k,rows)::tables =>
    if k = (row.table_schema,row.table_name) then (k,rows++[row])::tables
    else (k,rows)::addRow row tables

def groupRow (schema_filter : Option Matcher) (tables : List ((Str × Str) × List Record))
    (row : Record) : Except Raised (List ((Str × Str) × List Record)) :=
  match schema_filter with
  | none => .ok (addRow row tables)
  | some allowed =>
    match allowed row.table_schema with
    | none => .error .pattern_error
    | some true => .ok (addRow row tables)
    | some false => .ok tables

def datasetName (database schema table : Str) : Str := database ++ '.'::schema ++ '.'::table

def sourceTable (database env : Str) (table : (Str × Str) × List Record) :
    Except Raised SourceTable :=
  let name := datasetName database table.1.1 table.1.2
  match T.make_dataset_urn "postgres".toList name env with
  | none => .error .urn_error
  | some urn => .ok ⟨table.1.1,table.1.2,urn,table.2⟩

def nothing (errors warnings : List Str) : IngestionResult := ⟨[],[],errors,warnings⟩

/-- The extractor up to its first write: a result already, or the tables that it has found. -/
def survey (recipe : Items) (default_env : Str) : Except Raised (IngestionResult ⊕ Survey) := do
  let config ← recipeConfig recipe
  let (host,port) ← hostAndPort T
    ((get? "host_port".toList config).getD (.str "localhost:5432".toList))
  let database := (get? "database".toList config).getD (.str [])
  let username := (get? "username".toList config).getD (.str [])
  let password := (get? "password".toList config).getD (.str [])
  let env := parse_env_from_config config default_env
  let schema_filter ← schemaFilter T config
  match T.connect host port username password database with
  | .error message => return .inl (nothing ["PostgreSQL connection failed: ".toList++message] [])
  | .ok (.error message) => throw (.read message)
  | .ok (.ok rows) =>
    if rows.isEmpty then return .inl (nothing [] ["No columns found in database".toList])
    let tables ← rows.foldlM (groupRow schema_filter) []
    if tables.isEmpty then
      return .inl (nothing [] ["No tables matched schema_pattern filter".toList])
    match database with
    | .str database => return .inr ⟨database,env,← tables.mapM (sourceTable T database env)⟩
    | _ => throw .validation_error

end Survey

section Crawl

variable (T : Toolkit) (remote : Remote Write Str)

/-- What the writes of one crawl share. -/
structure Crawl where
  source_id : Str
  database : Str
  env : Str
  system_metadata : SystemMetadata

namespace Crawl

variable (C : Crawl)

def databaseKey : ContainerKey := ⟨C.database,none,C.env⟩

def schemaKey (schema : Str) : ContainerKey := ⟨C.database,some schema,C.env⟩

/-- The work units that have a URN and an aspect. -/
def containerWrites (key : ContainerKey) : List Write :=
  (T.gen_containers key).filterMap fun mcp =>
    match mcp.entityUrn, mcp.aspect with
    | some (c::urn), some aspect => some ⟨c::urn,.generated aspect,C.system_metadata⟩
    | _, _ => none

def schemaField (col : Record) : SchemaField where
  fieldPath := col.column_name
  nativeDataType := col.data_type
  type := (get? col.data_type pgToDatahubType).getD .string
  nullable := col.is_nullable = "YES".toList
  description := col.column_comment

def datasetName (t : SourceTable) : Str := Pipeline.datasetName C.database t.schema t.table

def description (t : SourceTable) : Str :=
  match t.columns.head?.bind Record.table_comment with
  | some (c::comment) => c::comment
  | _ => "Ingested by DataSpoke: ".toList++C.datasetName t

def aspects (t : SourceTable) : List Aspect :=
  let schema_container := T.as_urn (C.schemaKey t.schema)
  let db_container := T.as_urn C.databaseKey
  [.status false,.container schema_container,
    .browsePathsV2 [(db_container,db_container),(schema_container,schema_container)],
    .datasetProperties (t.schema ++ '.'::t.table) (C.datasetName t) (C.description t)
      [("source".toList,"dataspoke-ingestion".toList),("source_id".toList,C.source_id),
        ("database".toList,C.database),("schema".toList,t.schema)],
    .schemaMetadata (t.schema ++ '.'::t.table) "urn:li:dataPlatform:postgres".toList 0 [] []
      (t.columns.map schemaField)]

def tableWrites (t : SourceTable) : List Write :=
  (C.aspects T t).map fun aspect => ⟨t.urn,aspect,C.system_metadata⟩

def failure (t : SourceTable) (message : Str) : Str :=
  "Failed to emit aspects for '".toList++C.datasetName t++"': ".toList++message

end Crawl

structure Progress where
  attempts : Attempts Write Str
  emitted_urns : List Str
  errors : List Str
  schemas_seen : List Str

variable (C : Crawl)

def emitSchema (schema : Str) (s : Progress) : Progress :=
  if schema ∈ s.schemas_seen then s
  else { s with
    attempts := emitEach remote (C.containerWrites T (C.schemaKey schema)) s.attempts
    schemas_seen := s.schemas_seen++[schema] }

def emitTable (s : Progress) (t : SourceTable) : Progress :=
  let s := emitSchema T remote C t.schema s
  match emitAll remote (C.tableWrites T t) s.attempts with
  | (attempts,some message) =>
    { s with attempts := attempts, errors := s.errors++[C.failure t message] }
  | (attempts,none) => { s with attempts := attempts, emitted_urns := s.emitted_urns++[t.urn] }

def crawl (tables : List SourceTable) (log : Attempts Write Str) : Progress :=
  tables.foldl (emitTable T remote C)
    ⟨emitEach remote (C.containerWrites T C.databaseKey) log,[],[],[]⟩

structure Request where
  source_id : Str
  recipe : Items
  dry_run : Bool
  run_id : Str
  default_env : Str
  /-- The clock when the crawl begins, in milliseconds. -/
  now : ℕ

def Request.runId (r : Request) : Str := "dataspoke-".toList ++ r.source_id ++ '-'::r.run_id

def Request.crawl (r : Request) (s : Survey) : Crawl :=
  ⟨r.source_id,s.database,s.env,⟨r.runId,r.source_id,r.now⟩⟩

/-- `_extract_postgres`, with the attempts that it has made. -/
def extract_postgres (r : Request) (log : Attempts Write Str) :
    Attempts Write Str × Except Raised IngestionResult :=
  match survey T r.recipe r.default_env with
  | .error e => (log,.error e)
  | .ok (.inl result) => (log,.ok result)
  | .ok (.inr s) =>
    let discovered_urns := s.tables.map SourceTable.urn
    if r.dry_run then (log,.ok ⟨discovered_urns,[],[],[]⟩)
    else
      let done := Pipeline.crawl T remote (r.crawl s) s.tables log
      (done.attempts,.ok ⟨discovered_urns,done.emitted_urns,done.errors,[]⟩)

def unregistered (source_type : Str) : Str :=
  "No ACTIVE_CUSTOM_MANAGED extractor registered for source.type='".toList++source_type++
    "'. Fork and extend extractors.py to add support.".toList

/-- The type of the source is looked up in the registry, so it has to be hashable. -/
def run_extractor (r : Request) (log : Attempts Write Str) :
    Attempts Write Str × Except Raised IngestionResult :=
  match recipeSource r.recipe with
  | .error e => (log,.error e)
  | .ok source =>
    match (get? typeKey source).getD (.str []) with
    | .arr _ | .obj _ => (log,.error .type_error)
    | .str source_type =>
      if source_type = "postgres".toList then extract_postgres T remote r log
      else (log,.ok (nothing [unregistered source_type] []))
    | source_type => (log,.ok (nothing [unregistered (T.str source_type)] []))

end Crawl

section Rounds

variable (T : Toolkit) (remote : Remote Write Str) (C : Crawl)

/-- What the crawl has done for one table, and why it failed where it did. -/
structure Round where
  table : SourceTable
  attempts : Attempts Write Str
  refusal : Option Str

/-- The containers of the schema, if at all, and then the writes of the table in turn. -/
def Round.Legal (r : Round) : Prop :=
  ∃ containers own, r.attempts = containers++own ∧
    (∀ a ∈ containers, a.1 ∈ C.containerWrites T (C.schemaKey r.table.schema)) ∧
    InTurn (C.tableWrites T r.table) own r.refusal

theorem emitSchema_attempts (schema : Str) (s : Progress) :
    ∃ containers, emitSchema T remote C schema s =
        { s with
          attempts := s.attempts++containers
          schemas_seen := (emitSchema T remote C schema s).schemas_seen } ∧
      ∀ a ∈ containers, a.1 ∈ C.containerWrites T (C.schemaKey schema) := by
  rw [emitSchema]
  by_cases hseen : schema ∈ s.schemas_seen
  · rw [if_pos hseen]
    exact ⟨[],by rw [List.append_nil],fun a ha => nomatch ha⟩
  · rw [if_neg hseen]
    obtain ⟨attempts,heach,hmap⟩ :=
      emitEach_attempts remote (C.containerWrites T (C.schemaKey schema)) s.attempts
    refine ⟨attempts,by rw [heach],fun a ha => ?_⟩
    rw [← hmap]
    exact List.mem_map_of_mem ha

/-- A round appends its attempts, and the dataset to those emitted or its failure to the errors. -/
theorem emitTable_round (s : Progress) (t : SourceTable) : ∃ r : Round, r.table = t ∧ r.Legal T C ∧
    (emitTable T remote C s t).attempts = s.attempts++r.attempts ∧
    (emitTable T remote C s t).emitted_urns =
      s.emitted_urns++(if r.refusal.isNone then [t.urn] else []) ∧
    (emitTable T remote C s t).errors = s.errors++(r.refusal.map (C.failure t)).toList := by
  obtain ⟨containers,hschema,hcontainers⟩ := emitSchema_attempts T remote C t.schema s
  obtain ⟨own,hown,hturn⟩ := emitAll_inTurn remote (C.tableWrites T t) (s.attempts++containers)
  refine ⟨⟨t,containers++own,_⟩,rfl,⟨containers,own,rfl,hcontainers,hturn⟩,?_⟩
  rw [emitTable,hschema]
  dsimp only
  generalize emitAll remote (C.tableWrites T t) (s.attempts++containers) = result at hown ⊢
  obtain ⟨attempts,_ | message⟩ := result
  · exact ⟨by rw [← List.append_assoc]; exact hown,rfl,(List.append_nil _).symm⟩
  · exact ⟨by rw [← List.append_assoc]; exact hown,(List.append_nil _).symm,rfl⟩

theorem foldl_rounds (tables : List SourceTable) (s : Progress) : ∃ rounds : List Round,
    rounds.map Round.table = tables ∧ (∀ r ∈ rounds, r.Legal T C) ∧
    (tables.foldl (emitTable T remote C) s).attempts = s.attempts++rounds.flatMap Round.attempts ∧
    (tables.foldl (emitTable T remote C) s).emitted_urns =
      s.emitted_urns++(rounds.filter (·.refusal.isNone)).map (·.table.urn) ∧
    (tables.foldl (emitTable T remote C) s).errors =
      s.errors++rounds.filterMap fun r => r.refusal.map (C.failure r.table) := by
  induction tables generalizing s with
  | nil => exact ⟨[],rfl,(fun r hr => nomatch hr),by simp,by simp,by simp⟩
  | cons t tables ih =>
    obtain ⟨r,htable,hlegal,hattempts,hemitted,herrors⟩ := emitTable_round T remote C s t
    obtain ⟨rounds,htables,hlegals,hattempts',hemitted',herrors'⟩ := ih (emitTable T remote C s t)
    refine ⟨r::rounds,by rw [List.map_cons,htable,htables],
      List.forall_mem_cons.mpr ⟨hlegal,hlegals⟩,?_,?_,?_⟩
    · rw [List.foldl_cons,hattempts',hattempts,List.append_assoc,List.flatMap_cons]
    · rw [List.foldl_cons,hemitted',hemitted,List.append_assoc,List.filter_cons]
      cases r.refusal.isNone
      · rfl
      · rw [← htable]
        rfl
    · rw [List.foldl_cons,herrors',herrors,List.append_assoc,List.filterMap_cons,htable]
      cases r.refusal <;> rfl

end Rounds

section Reports

variable (T : Toolkit) (remote : Remote Write Str) (C : Crawl)

/-- The aspect is one of the instance that stands for the run. -/
def Aspect.ofInstance : Aspect → Bool
  | .instanceProperties _ _ _ _ | .instanceRelationships _ _ | .instanceRunEvent _ _
  | .instanceOutput _ => true
  | _ => false

/-- All the writes of the dataset are accepted. -/
def Accepted (attempts : Attempts Write Str) (t : SourceTable) : Prop :=
  ∀ w ∈ C.tableWrites T t, (w,none) ∈ attempts

/-- A write of the dataset is refused with the message. -/
def Refused (attempts : Attempts Write Str) (t : SourceTable) (message : Str) : Prop :=
  ∃ w ∈ C.tableWrites T t, (w,some message) ∈ attempts

/-- What a crawl reports of its tables is what DataHub has answered to their writes. -/
structure Reported (tables : List SourceTable) (attempts : Attempts Write Str)
    (emitted_urns errors : List Str) : Prop where
  emitted : emitted_urns.Sublist (tables.map SourceTable.urn)
  counted : emitted_urns.length+errors.length = tables.length
  accepted : ∀ urn ∈ emitted_urns, ∃ t ∈ tables, t.urn = urn ∧ Accepted T C attempts t
  each : ∀ t ∈ tables, t.urn ∈ emitted_urns ∧ Accepted T C attempts t ∨
    ∃ message, C.failure t message ∈ errors ∧ Refused T C attempts t message
  refused : ∀ e ∈ errors, ∃ t ∈ tables, ∃ message, e = C.failure t message ∧
    Refused T C attempts t message

variable {T C}

theorem Round.Legal.outcome {r : Round} (h : r.Legal T C) :
    r.refusal.elim (Accepted T C r.attempts r.table) (Refused T C r.attempts r.table) := by
  obtain ⟨containers,own,hattempts,-,hturn⟩ := h
  have hown : ∀ a ∈ own, a ∈ r.attempts := fun a ha => by
    rw [hattempts]
    exact List.mem_append_right _ ha
  cases hrefusal : r.refusal with
  | none =>
    rw [hrefusal] at hturn
    exact fun w hw => hown _ (hturn.accepted_all hw)
  | some message =>
    rw [hrefusal] at hturn
    obtain ⟨w,hw,hmem⟩ := hturn.refused_mem
    exact ⟨w,hw,hown _ hmem⟩

theorem Accepted.mono {attempts attempts' : Attempts Write Str} (h : attempts ⊆ attempts')
    {t : SourceTable} (ha : Accepted T C attempts t) : Accepted T C attempts' t :=
  fun w hw => h (ha w hw)

theorem Refused.mono {attempts attempts' : Attempts Write Str} (h : attempts ⊆ attempts')
    {t : SourceTable} {message : Str} (hr : Refused T C attempts t message) :
    Refused T C attempts' t message := by
  obtain ⟨w,hw,hmem⟩ := hr
  exact ⟨w,hw,h hmem⟩

theorem Reported.mono {tables : List SourceTable} {attempts attempts' : Attempts Write Str}
    {emitted_urns errors : List Str} (h : attempts ⊆ attempts')
    (hr : Reported T C tables attempts emitted_urns errors) :
    Reported T C tables attempts' emitted_urns errors where
  emitted := hr.emitted
  counted := hr.counted
  accepted := by
    intro urn hurn
    obtain ⟨t,ht,hurn,haccepted⟩ := hr.accepted urn hurn
    exact ⟨t,ht,hurn,haccepted.mono h⟩
  each := by
    intro t ht
    rcases hr.each t ht with ⟨hurn,haccepted⟩ | ⟨message,hmessage,hrefused⟩
    · exact .inl ⟨hurn,haccepted.mono h⟩
    · exact .inr ⟨message,hmessage,hrefused.mono h⟩
  refused := by
    intro e he
    obtain ⟨t,ht,message,he,hrefused⟩ := hr.refused e he
    exact ⟨t,ht,message,he,hrefused.mono h⟩

/-- The emitted datasets and the failures of some rounds are as many as the rounds. -/
theorem rounds_counted (rounds : List Round) :
    ((rounds.filter (·.refusal.isNone)).map (·.table.urn)).length+
      (rounds.filterMap fun r => r.refusal.map (C.failure r.table)).length = rounds.length := by
  induction rounds with
  | nil => rfl
  | cons r rounds ih =>
    rw [List.filter_cons,List.filterMap_cons,List.length_cons,← ih]
    cases r.refusal with
    | none => exact Nat.succ_add _ _
    | some message => exact Nat.add_succ _ _

theorem reported_of_rounds {rounds : List Round} {attempts : Attempts Write Str}
    (hlegal : ∀ r ∈ rounds, r.Legal T C) (hsub : rounds.flatMap Round.attempts ⊆ attempts) :
    Reported T C (rounds.map Round.table) attempts
      ((rounds.filter (·.refusal.isNone)).map (·.table.urn))
      (rounds.filterMap fun r => r.refusal.map (C.failure r.table)) := by
  have hin : ∀ r ∈ rounds, r.attempts ⊆ attempts :=
    fun r hr a ha => hsub (List.mem_flatMap.mpr ⟨r,hr,ha⟩)
  refine ⟨?_,?_,fun urn hurn => ?_,fun t ht => ?_,fun e he => ?_⟩
  · rw [List.map_map]
    exact List.filter_sublist.map _
  · rw [rounds_counted,List.length_map]
  · obtain ⟨r,hr,rfl⟩ := List.mem_map.mp hurn
    obtain ⟨hr,hnone⟩ := List.mem_filter.mp hr
    have hout := (hlegal r hr).outcome
    rw [Option.isNone_iff_eq_none.mp hnone] at hout
    exact ⟨r.table,List.mem_map_of_mem hr,rfl,hout.mono (hin r hr)⟩
  · obtain ⟨r,hr,rfl⟩ := List.mem_map.mp ht
    have hout := (hlegal r hr).outcome
    cases hrefusal : r.refusal with
    | none =>
      rw [hrefusal] at hout
      refine .inl ⟨List.mem_map.mpr ⟨r,List.mem_filter.mpr ⟨hr,?_⟩,rfl⟩,hout.mono (hin r hr)⟩
      rw [hrefusal]
      rfl
    | some message =>
      rw [hrefusal] at hout
      exact .inr ⟨message,List.mem_filterMap.mpr ⟨r,hr,by rw [hrefusal]; rfl⟩,hout.mono (hin r hr)⟩
  · obtain ⟨r,hr,he⟩ := List.mem_filterMap.mp he
    obtain ⟨message,hmessage,rfl⟩ := Option.map_eq_some_iff.mp he
    have hout := (hlegal r hr).outcome
    rw [hmessage] at hout
    exact ⟨r.table,List.mem_map_of_mem hr,message,rfl,hout.mono (hin r hr)⟩

variable (T C) in
/-- The write is one of a crawl: stamped as such, and not on the instance. -/
def OfCrawl (w : Write) : Prop :=
  w.system_metadata = C.system_metadata ∧ w.aspect.ofInstance = false

theorem containerWrites_ofCrawl {key : ContainerKey} {w : Write}
    (hw : w ∈ C.containerWrites T key) : OfCrawl C w := by
  obtain ⟨mcp,-,hw⟩ := List.mem_filterMap.mp hw
  split at hw
  · cases hw
    exact ⟨rfl,rfl⟩
  · cases hw

theorem tableWrites_ofCrawl {t : SourceTable} {w : Write} (hw : w ∈ C.tableWrites T t) :
    OfCrawl C w := by
  obtain ⟨aspect,haspect,rfl⟩ := List.mem_map.mp hw
  refine ⟨rfl,?_⟩
  simp only [Crawl.aspects,List.mem_cons,List.not_mem_nil,or_false] at haspect
  rcases haspect with rfl | rfl | rfl | rfl | rfl <;> rfl

theorem Round.Legal.ofCrawl {r : Round} (h : r.Legal T C) {a : Write × Option Str}
    (ha : a ∈ r.attempts) : OfCrawl C a.1 := by
  obtain ⟨containers,own,hattempts,hcontainers,hturn⟩ := h
  rw [hattempts] at ha
  rcases List.mem_append.mp ha with ha | ha
  · exact containerWrites_ofCrawl (hcontainers a ha)
  · exact tableWrites_ofCrawl (hturn.mem ha)

variable (T C) in
theorem crawl_reported (tables : List SourceTable) (log : Attempts Write Str) :
    ∃ attempts, (crawl T remote C tables log).attempts = log++attempts ∧
      (∀ a ∈ attempts, OfCrawl C a.1) ∧
      Reported T C tables attempts (crawl T remote C tables log).emitted_urns
        (crawl T remote C tables log).errors := by
  obtain ⟨opening,heach,hopening⟩ :=
    emitEach_attempts remote (C.containerWrites T C.databaseKey) log
  obtain ⟨rounds,htables,hlegal,hattempts,hemitted,herrors⟩ :=
    foldl_rounds T remote C tables
      ⟨emitEach remote (C.containerWrites T C.databaseKey) log,[],[],[]⟩
  refine ⟨opening++rounds.flatMap Round.attempts,?_,fun a ha => ?_,?_⟩
  · rw [crawl,hattempts,heach,List.append_assoc]
  · rcases List.mem_append.mp ha with ha | ha
    · have hmem : a.1 ∈ C.containerWrites T C.databaseKey := by
        rw [← hopening]
        exact List.mem_map_of_mem ha
      exact containerWrites_ofCrawl hmem
    · obtain ⟨r,hr,ha⟩ := List.mem_flatMap.mp ha
      exact (hlegal r hr).ofCrawl ha
  · rw [crawl,hemitted,herrors,← htables]
    exact reported_of_rounds hlegal (List.subset_append_right _ _)

end Reports

end Pipeline
end Ingestion
end Dataspoke
