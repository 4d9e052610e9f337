import Dataspoke.Registry
import Dataspoke.RemoteCall
import Dataspoke.ValidationReads
import Mathlib.Data.Char
import Mathlib.Data.List.Lex

/-!
# The validation store

The configuration of a dataset, the results that pipelines report against it, its events, and
the assertion in DataHub that mirrors both, under any requests one after the other with any
call to DataHub failing.
-/

namespace Dataspoke
namespace Validation
namespace Store

open Python Transition
open RemoteCall (Fate inTurn)

structure Variable where
  name : Str
  description : Str
  deriving DecidableEq

structure Parameter where
  name : Str
  value : Str
  description : Str
  deriving DecidableEq

/-- `ValidationConfig` with all its columns. -/
structure Config where
  dataset_urn : Str
  description : Str
  «variables» : List Variable
  «attribute» : List (Str × ℤ)
  parameter : Option (List Parameter)
  created_at : ℕ
  updated_at : ℕ
  deriving DecidableEq

def VALIDATION_PREFIX : Str := "VALIDATION.".toList
def VALIDATION_CONFIG_CREATE : Str := "VALIDATION.CONFIG_CREATE".toList
def VALIDATION_CONFIG_UPDATE : Str := "VALIDATION.CONFIG_UPDATE".toList
def VALIDATION_RESULT_RECORDED : Str := "VALIDATION.RESULT_RECORDED".toList

inductive Detail
  | put (variable_count : ℕ)
  | patch (fields_changed : List Str)
  | result (data_time : ℕ) (score : Number) (variable_count : ℕ)
  /-- Of an event of another feature. -/
  | other
  deriving DecidableEq

structure Event where
  entity_type : Str
  entity_id : Str
  event_type : Str
  status : Str
  detail : Detail
  occurred_at : ℕ
  deriving DecidableEq

structure AssertionInfo where
  description : Str
  entity : Str
  logic : Str
  time : ℕ
  actor : Str

structure RunEvent where
  asserteeUrn : Str
  success : Bool
  actualAggValue : Number
  nativeResults : List (Str × Str)
  timestampMillis : ℕ
  runId : ℕ

/-- A call to DataHub that it has carried out, on an assertion URN. -/
inductive Emission
  | assertionInfo (info : AssertionInfo)
  | status
  | assertionRunEvent (event : RunEvent)
  | hardDelete

/-- The `datahub_guid` of a dataset, `repr` of a float, and the milliseconds of a time. -/
structure Runtime where
  guid : Str → Str
  repr : Number → Str
  epoch_ms : ℕ → ℕ

inductive Error
  | entity_not_found (entity_type entity_id : Str)
  | not_in_datahub
  | invalid_score (score : Number)
  | unknown_variable (unknown : List Str)
  | datahub_unavailable

structure Db where
  clock : ℕ
  registry : Registry.Db
  configs : Table Config.dataset_urn
  results : Table ValidationResult.id
  events : List Event
  datahub : List (Str × Emission)

/-- A partial update: a field that is left out, one that is null, or a value. -/
structure Patch where
  description : Option (Option Str)
  «variables» : Option (Option (List Variable))
  «attribute» : Option (Option (List (Str × ℤ)))
  parameter : Option (Option (List Parameter))

def Patch.keys (p : Patch) : List Str :=
  (p.description.map fun _ => "description".toList).toList ++
  (p.«variables».map fun _ => "variables".toList).toList ++
  (p.«attribute».map fun _ => "attribute".toList).toList ++
  (p.parameter.map fun _ => "parameter".toList).toList

/-- What a request meets: the instant it runs at, the configured actor, and what becomes of its
calls to DataHub. -/
structure Meet where
  now : ℕ
  actor : Option Str
  first : Fate
  second : Fate

inductive Answer
  | config (record : Config) (created : Bool)
  | no_content
  | result (record : ValidationResultRecord)

abbrev Outcome := Db × Except Error Answer

section Operations

variable (R : Runtime) (m : Meet) (db : Db)

def build_assertion_urn (dataset_urn : Str) : Str := "urn:li:assertion:".toList ++ R.guid dataset_urn

def build_assertion_info (dataset_urn description : Str) («variables» : List Variable) :
    AssertionInfo where
  description := description
  entity := dataset_urn
  logic := List.intercalate ", ".toList («variables».map (·.name))
  time := R.epoch_ms m.now
  actor := m.actor.getD "urn:li:corpuser:dataspoke".toList

def build_run_event (runId : ℕ) (dataset_urn : Str) (data_time : ℕ) (score : Number)
    («variables» : List (Str × Number)) (score_note : Option Str) : RunEvent where
  asserteeUrn := dataset_urn
  success := decide (score = .fin 1)
  actualAggValue := score
  nativeResults :=
    let native_results := setItem "score".toList (R.repr score)
      («variables».map fun v => (v.1,R.repr v.2))
    match score_note with
    | none | some [] => native_results
    | some note => setItem "score_note".toList note native_results
  timestampMillis := R.epoch_ms data_time
  runId := runId

/-- Both aspects of the assertion are emitted, the second one where the first call returned. -/
def register_assertion (c : Config) : Db × Bool :=
  let urn := build_assertion_urn R c.dataset_urn
  let info := build_assertion_info R m c.dataset_urn c.description c.«variables»
  let r := inTurn m.first m.second (· ++ [(urn,.assertionInfo info)]) (· ++ [(urn,.status)]) db.datahub
  ({ db with datahub := r.1 },r.2)

def record_event (dataset_urn event_type : Str) (detail : Detail) : Db :=
  { db with events := db.events ++ [⟨"dataset".toList,dataset_urn,event_type,"success".toList,detail,m.now⟩] }

/-- `{**DEFAULT_VALIDATION_ATTRIBUTE, **items}`. -/
def withDefaults (items : List (Str × ℤ)) : List (Str × ℤ) :=
  items.foldl (fun attr item => setItem item.1 item.2 attr) DEFAULT_VALIDATION_ATTRIBUTE

/-- From the commit of the configuration on. -/
def mirror (c : Config) (event_type : Str) (detail : Detail) (created : Bool) : Outcome :=
  let r := register_assertion R m { db with configs := db.configs.put c } c
  if r.2 then (record_event m r.1 c.dataset_urn event_type detail,.ok (.config c created))
  else (r.1,.error .datahub_unavailable)

/-- `aspect` is whether DataHub has properties of the dataset. -/
def upsert_config (dataset_urn description : Str) («variables» : List Variable)
    («attribute» : Option (List (Str × ℤ))) (parameter : Option (List Parameter)) (aspect : Bool) :
    Outcome :=
  let registered := Registry.ensure_dataset_registered m.now db.registry dataset_urn
    (Registry.flag? db.registry dataset_urn) aspect true
  match registered.2 with
  | .error _ => (db,.error .not_in_datahub)
  | .ok _ =>
    let db := { db with registry := registered.1 }
    let existing := db.configs.get? dataset_urn
    let c : Config := ⟨dataset_urn,description,«variables»,withDefaults («attribute».getD []),
      parameter,(existing.map (·.created_at)).getD m.now,m.now⟩
    mirror R m db c
      (if existing.isNone then VALIDATION_CONFIG_CREATE else VALIDATION_CONFIG_UPDATE)
      (.put «variables».length) existing.isNone

/-- The row of a configuration after a partial update. -/
def Config.patched (row : Config) (patch : Patch) : Config :=
  { row with
    description := (patch.description.getD none).getD row.description
    «variables» := (patch.«variables».getD none).getD row.«variables»
    «attribute» := ((patch.«attribute».getD none).map withDefaults).getD row.«attribute»
    parameter := patch.parameter.getD row.parameter
    updated_at := m.now }

def patch_config (dataset_urn : Str) (patch : Patch) : Outcome :=
  match db.configs.get? dataset_urn with
  | none => (db,.error (.entity_not_found "config".toList dataset_urn))
  | some row =>
    mirror R m db (row.patched m patch) VALIDATION_CONFIG_UPDATE (.patch patch.keys) false

/-- An event of the validation of a dataset. -/
def Event.validates (e : Event) (dataset_urn : Str) : Bool :=
  e.entity_type = "dataset".toList && e.entity_id = dataset_urn &&
    VALIDATION_PREFIX.isPrefixOf e.event_type

def delete_config (dataset_urn : Str) : Outcome :=
  match db.configs.get? dataset_urn with
  | none => (db,.error (.entity_not_found "config".toList dataset_urn))
  | some _ =>
    ({ db with
        results := db.results.remove (·.dataset_urn = dataset_urn)
        events := db.events.filter fun e => !e.validates dataset_urn
        configs := db.configs.remove (·.dataset_urn = dataset_urn)
        datahub := m.first.apply (· ++ [(build_assertion_urn R dataset_urn,.hardDelete)]) db.datahub },
      if m.first = .done then .ok .no_content else .error .datahub_unavailable)

/-- `math.isfinite(score)` and both bounds. -/
def validScore : Number → Bool
  | .fin q => decide (0 ≤ q ∧ q ≤ 1)
  | _ => false

def record_result (dataset_urn : Str) (data_time : ℕ) (score : Number)
    («variables» : List (Str × Number)) (score_note : Option Str) (id runId : ℕ) : Outcome :=
  if !validScore score then (db,.error (.invalid_score score))
  else
    match db.configs.get? dataset_urn with
    | none => (db,.error (.entity_not_found "config".toList dataset_urn))
    | some config_row =>
      let declared := config_row.«variables».map (·.name)
      let unknown := ((«variables».map Prod.fst).filter (· ∉ declared)).mergeSort (· ≤ ·)
      if unknown ≠ [] then (db,.error (.unknown_variable unknown))
      else
        let row : ValidationResult :=
          ⟨id,dataset_urn,data_time,score,«variables»,score_note,m.now⟩
        let run_event := build_run_event R runId dataset_urn data_time score «variables» score_note
        let db := { db with
          results := db.results.put row
          datahub := m.first.apply
            (· ++ [(build_assertion_urn R dataset_urn,.assertionRunEvent run_event)]) db.datahub }
        if m.first = .done then
          (record_event m db dataset_urn VALIDATION_RESULT_RECORDED
              (.result data_time score «variables».length),.ok (.result row.record))
        else (db,.error .datahub_unavailable)

end Operations

inductive Request
  | upsert (dataset_urn description : Str) («variables» : List Variable)
      («attribute» : Option (List (Str × ℤ))) (parameter : Option (List Parameter)) (aspect : Bool)
  | patch (dataset_urn : Str) (patch : Patch)
  | delete (dataset_urn : Str)
  | record (dataset_urn : Str) (data_time : ℕ) (score : Number) («variables» : List (Str × Number))
      (score_note : Option Str) (id runId : ℕ)
  /-- The registry is synchronized, and other features record events. -/
  | elsewhere (registry : Registry.Db) (events : List Event)

def Request.run (R : Runtime) (m : Meet) (db : Db) : Request → Outcome
  | .upsert urn description vars attr parameter aspect =>
    upsert_config R m db urn description vars attr parameter aspect
  | .patch urn p => patch_config R m db urn p
  | .delete urn => delete_config R m db urn
  | .record urn data_time score vars note id runId =>
    record_result R m db urn data_time score vars note id runId
  | .elsewhere registry events =>
    ({ db with registry := registry, events := db.events ++ events },.ok .no_content)

/-- A new result has a new id, and an event of another feature another prefix. -/
def Request.Admitted (db : Db) : Request → Prop
  | .record _ _ _ _ _ id _ => db.results.get? id = none
  | .elsewhere _ events => ∀ e ∈ events, VALIDATION_PREFIX.isPrefixOf e.event_type = false
  | _ => True

instance (db : Db) : (r : Request) → Decidable (r.Admitted db)
  | .record .. => inferInstanceAs (Decidable (_ = _))
  | .elsewhere .. => inferInstanceAs (Decidable (∀ e ∈ _, _))
  | .upsert .. | .patch .. | .delete .. => isTrue trivial

/-- One request after the other, each at an instant of its own. -/
def step (R : Runtime) (db : Db) (l : Meet × Request) : Option Db :=
  if db.clock < l.1.now ∧ l.2.Admitted db then
    some { (l.2.run R l.1 db).1 with clock := l.1.now }
  else none

def Fresh (db : Db) : Prop :=
  db.configs.rows = [] ∧ db.results.rows = [] ∧ db.datahub = [] ∧
    ∀ e ∈ db.events, VALIDATION_PREFIX.isPrefixOf e.event_type = false

def system (R : Runtime) : System Db (Meet × Request) := ofFun Fresh (step R)

def Registered (m : Meet) (db : Db) (dataset_urn : Str) (aspect : Bool) : Bool :=
  (Registry.ensure_dataset_registered m.now db.registry dataset_urn
    (Registry.flag? db.registry dataset_urn) aspect true).2.toBool

/-- The configuration that a request stores, on the one there is. -/
def Request.stores (m : Meet) (db : Db) : Request → Option Config
  | .upsert urn description vars attr parameter aspect =>
    if Registered m db urn aspect then
      some ⟨urn,description,vars,withDefaults (attr.getD []),parameter,
        ((db.configs.get? urn).map (·.created_at)).getD m.now,m.now⟩
    else none
  | .patch urn p => (db.configs.get? urn).map (·.patched m p)
  | _ => none

/-- The dataset whose configuration a request deletes. -/
def Request.deletes (db : Db) : Request → Option Str
  | .delete urn => (db.configs.get? urn).map fun _ => urn
  | _ => none

/-- The result that a request stores. -/
def Request.reports (m : Meet) (db : Db) : Request → Option ValidationResult
  | .record urn data_time score vars note id _ =>
    (db.configs.get? urn).bind fun c =>
      if validScore score && vars.all fun v => v.1 ∈ c.«variables».map (·.name) then
        some ⟨id,urn,data_time,score,vars,note,m.now⟩
      else none
  | _ => none

variable {R : Runtime} {m : Meet} {r : Request} {db db' : Db}

/-- The events that follow a stored configuration. -/
def Config.Logged (c : Config) (m : Meet) (db db' : Db) : Prop :=
  db'.events = db.events ∨ ∃ event_type detail, event_type ≠ VALIDATION_RESULT_RECORDED ∧
    db'.events = (record_event m db c.dataset_urn event_type detail).events

/-- What a request does to the tables and in DataHub. -/
inductive Effect (R : Runtime) (m : Meet) (db : Db) (r : Request) (db' : Db) : Prop
  | idle (hstores : r.stores m db = none) (hdeletes : r.deletes db = none)
      (hreports : r.reports m db = none) (hconfigs : db'.configs = db.configs)
      (hresults : db'.results = db.results) (hdatahub : db'.datahub = db.datahub)
      (hevents : ∃ events, db'.events = db.events ++ events ∧
        ∀ e ∈ events, VALIDATION_PREFIX.isPrefixOf e.event_type = false)
  | stored (c : Config) (hstores : r.stores m db = some c) (hdeletes : r.deletes db = none)
      (hreports : r.reports m db = none) (hconfigs : db'.configs = db.configs.put c)
      (hresults : db'.results = db.results)
      (hdatahub : db'.datahub = (register_assertion R m db c).1.datahub)
      (hevents : c.Logged m db db')
  | deleted (urn : Str) (hstores : r.stores m db = none) (hdeletes : r.deletes db = some urn)
      (hreports : r.reports m db = none)
      (hconfigs : db'.configs = db.configs.remove (·.dataset_urn = urn))
      (hresults : db'.results = db.results.remove (·.dataset_urn = urn))
      (hdatahub : db'.datahub =
        m.first.apply (· ++ [(build_assertion_urn R urn,.hardDelete)]) db.datahub)
      (hevents : db'.events = db.events.filter fun e => !e.validates urn)
  | reported (row : ValidationResult) (run_event : RunEvent) (hstores : r.stores m db = none)
      (hdeletes : r.deletes db = none) (hreports : r.reports m db = some row)
      (hconfigs : db'.configs = db.configs) (hresults : db'.results = db.results.put row)
      (hrun : run_event.asserteeUrn = row.dataset_urn ∧ run_event.actualAggValue = row.score ∧
        run_event.timestampMillis = R.epoch_ms row.data_time)
      (hdatahub : db'.datahub = m.first.apply (· ++
        [(build_assertion_urn R row.dataset_urn,.assertionRunEvent run_event)]) db.datahub)
      (hevents : db'.events = if m.first = .done then
        (record_event m db row.dataset_urn VALIDATION_RESULT_RECORDED
          (.result row.data_time row.score row.«variables».length)).events else db.events)

theorem mirror_effect (m : Meet) (db : Db) (c : Config) (event_type : Str) (detail : Detail) (created : Bool)
    (hne : event_type ≠ VALIDATION_RESULT_RECORDED) :
    let out := (mirror R m db c event_type detail created).1
    out.configs = db.configs.put c ∧ out.results = db.results ∧
      out.datahub = (register_assertion R m db c).1.datahub ∧ c.Logged m db out := by
  unfold mirror
  dsimp only
  split
  · exact ⟨rfl,rfl,rfl,.inr ⟨event_type,detail,hne,rfl⟩⟩
  · exact ⟨rfl,rfl,rfl,.inl rfl⟩

theorem unknown_eq_nil {names declared : List Str} :
    (names.filter (· ∉ declared)).mergeSort (· ≤ ·) = [] ↔ ∀ name ∈ names, name ∈ declared := by
  have hperm := List.mergeSort_perm (names.filter (· ∉ declared)) (· ≤ ·)
  constructor
  · intro h name hname
    rw [h] at hperm
    by_contra hno
    have hmem : name ∈ names.filter (· ∉ declared) :=
      List.mem_filter.mpr ⟨hname,by simpa using hno⟩
    rw [List.nil_perm.mp hperm] at hmem
    cases hmem
  · intro h
    have hnil : names.filter (· ∉ declared) = [] :=
      List.filter_eq_nil_iff.mpr fun name hname hno => of_decide_eq_true hno (h name hname)
    rw [hnil] at hperm ⊢
    exact List.perm_nil.mp hperm

theorem record_effect (urn : Str) (data_time : ℕ) (score : Number) (vars : List (Str × Number))
    (note : Option Str) (id runId : ℕ) :
    Effect R m db (.record urn data_time score vars note id runId)
      (record_result R m db urn data_time score vars note id runId).1 := by
  have hidle : Request.reports m db (.record urn data_time score vars note id runId) = none →
      Effect R m db (.record urn data_time score vars note id runId) db := fun h =>
    .idle rfl rfl h rfl rfl rfl ⟨[],(List.append_nil _).symm,by simp⟩
  unfold record_result
  cases hscore : validScore score with
  | false =>
    refine hidle ?_
    simp [Request.reports,hscore]
  | true =>
    cases hc : db.configs.get? urn with
    | none =>
      refine hidle ?_
      simp [Request.reports,hc]
    | some c =>
      dsimp only
      by_cases hunknown : ((vars.map Prod.fst).filter
          (· ∉ c.«variables».map (·.name))).mergeSort (· ≤ ·) = []
      · have hall : (vars.all fun v => v.1 ∈ c.«variables».map (·.name)) = true := by
          rw [List.all_eq_true]
          intro v hv
          exact decide_eq_true (unknown_eq_nil.mp hunknown v.1 (List.mem_map_of_mem hv))
        rw [if_neg (by simp),if_neg (not_not.mpr hunknown)]
        have hreports : Request.reports m db (.record urn data_time score vars note id runId) =
            some ⟨id,urn,data_time,score,vars,note,m.now⟩ := by
          simp only [Request.reports,hc,Option.bind_some,hscore,hall]
          rfl
        split
        · rename_i hdone
          exact .reported _ (build_run_event R runId urn data_time score vars note) rfl rfl hreports
            rfl rfl ⟨rfl,rfl,rfl⟩ rfl (if_pos hdone).symm
        · rename_i hdone
          exact .reported _ (build_run_event R runId urn data_time score vars note) rfl rfl hreports
            rfl rfl ⟨rfl,rfl,rfl⟩ rfl (if_neg hdone).symm
      · rw [if_neg (by simp),if_pos hunknown]
        refine hidle ?_
        rw [Request.reports,hc,Option.bind_some]
        refine if_neg fun hvalid => hunknown (unknown_eq_nil.mpr fun name hname => ?_)
        obtain ⟨v,hv,rfl⟩ := List.mem_map.mp hname
        exact of_decide_eq_true (List.all_eq_true.mp (Bool.and_eq_true_iff.mp hvalid).2 v hv)

theorem run_effect (hadm : r.Admitted db) : Effect R m db r (r.run R m db).1 := by
  cases r with
  | upsert urn description vars attr parameter aspect =>
    have hstores : ∀ b, Registered m db urn aspect = b →
        Request.stores m db (.upsert urn description vars attr parameter aspect) =
          if b then some ⟨urn,description,vars,withDefaults (attr.getD []),parameter,
            ((db.configs.get? urn).map (·.created_at)).getD m.now,m.now⟩ else none := by
      rintro _ rfl
      rfl
    change Effect R m db _ (upsert_config R m db urn description vars attr parameter aspect).1
    unfold upsert_config
    dsimp only
    cases hreg : (Registry.ensure_dataset_registered m.now db.registry urn
        (Registry.flag? db.registry urn) aspect true).2 with
    | error e =>
      have hno := hstores false (by rw [Registered,hreg]; rfl)
      exact .idle hno rfl rfl rfl rfl rfl ⟨[],(List.append_nil _).symm,by simp⟩
    | ok b =>
      have hyes := hstores true (by rw [Registered,hreg]; rfl)
      have hmirror := mirror_effect (R := R) m
        { db with registry := (Registry.ensure_dataset_registered m.now db.registry urn
          (Registry.flag? db.registry urn) aspect true).1 }
        ⟨urn,description,vars,withDefaults (attr.getD []),parameter,
          ((db.configs.get? urn).map (·.created_at)).getD m.now,m.now⟩
        (if (db.configs.get? urn).isNone then VALIDATION_CONFIG_CREATE else VALIDATION_CONFIG_UPDATE)
        (.put vars.length) (db.configs.get? urn).isNone (by split <;> decide)
      exact .stored _ hyes rfl rfl hmirror.1 hmirror.2.1 hmirror.2.2.1 hmirror.2.2.2
  | patch urn p =>
    change Effect R m db _ (patch_config R m db urn p).1
    unfold patch_config
    cases hc : db.configs.get? urn with
    | none =>
      refine .idle ?_ rfl rfl rfl rfl rfl ⟨[],(List.append_nil _).symm,by simp⟩
      rw [Request.stores,hc]
      rfl
    | some row =>
      have hmirror := mirror_effect (R := R) m db (row.patched m p)
        VALIDATION_CONFIG_UPDATE (.patch p.keys) false (by decide)
      refine .stored (row.patched m p) ?_ rfl rfl hmirror.1 hmirror.2.1 hmirror.2.2.1 hmirror.2.2.2
      rw [Request.stores,hc]
      rfl
  | delete urn =>
    change Effect R m db _ (delete_config R m db urn).1
    unfold delete_config
    cases hc : db.configs.get? urn with
    | none =>
      refine .idle rfl ?_ rfl rfl rfl rfl ⟨[],(List.append_nil _).symm,by simp⟩
      rw [Request.deletes,hc]
      rfl
    | some row =>
      refine .deleted urn rfl ?_ rfl rfl rfl rfl rfl
      rw [Request.deletes,hc]
      rfl
  | record urn data_time score vars note id runId => exact record_effect ..
  | elsewhere registry events =>
    exact .idle rfl rfl rfl rfl rfl rfl ⟨events,rfl,hadm⟩

end Store
end Validation
end Dataspoke
