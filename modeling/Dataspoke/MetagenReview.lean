import Dataspoke.MetagenStore
import Dataspoke.Interleave

/-!
# Reviews of metadata candidates

`review_candidate` for one dataset, cut where it awaits the database or DataHub. A request
takes effect on the database at its commit: the flushed demotion of the approved sibling
keeps that row locked until then. DataHub stores an aspect as a whole.
-/

namespace Dataspoke
namespace Metagen

open Python Interleave

structure EditableDatasetProperties where
  name : Option Str
  description : Option Str

structure EditableSchemaFieldInfo where
  fieldPath : Str
  description : Option Str
  globalTags : List Str
  glossaryTerms : List Str

structure DataHub where
  properties : Option EditableDatasetProperties
  schema : Option (List EditableSchemaFieldInfo)

/-- The description that an item is about. -/
inductive Target
  | dataset
  | field (field_path : Str)
  deriving DecidableEq

def targetOf (item_id : Str) : Option Target :=
  if item_id = datasetDescription then some .dataset
  else if "column.".toList.isPrefixOf item_id && ".description".toList.isSuffixOf item_id then
    (fieldPathOf item_id).map .field
  else none

def fieldDescription (field_infos : List EditableSchemaFieldInfo) (field_path : Str) :
    Option Str :=
  (field_infos.find? fun fi => fi.fieldPath = field_path).bind (·.description)

def schemaDescription (schema : Option (List EditableSchemaFieldInfo)) (field_path : Str) :
    Option Str :=
  schema.bind fun field_infos => fieldDescription field_infos field_path

def DataHub.describe (datahub : DataHub) : Target → Option Str
  | .dataset => datahub.properties.bind (·.description)
  | .field field_path => schemaDescription datahub.schema field_path

/-- The properties that `_emit_to_datahub` writes back, or `_clear_datahub_aspect` where
there is no value; `none` where nothing is written. -/
def nextProperties (value : Option Str) (existing : Option EditableDatasetProperties) :
    Option EditableDatasetProperties :=
  match existing, value with
  | some existing, value => some { existing with description := value }
  | none, some value => some ⟨none,some value⟩
  | none, none => none

/-- Set the description of the first entry of the field, if it has one. -/
def setDescription (field_path : Str) (value : Option Str) :
    List EditableSchemaFieldInfo → Option (List EditableSchemaFieldInfo)
  | [] => none
  | fi::rest =>
    if fi.fieldPath = field_path then some ({ fi with description := value }::rest)
    else (setDescription field_path value rest).map (fi :: ·)

/-- The field infos written back, an entry appended where a value has none. -/
def nextSchema (field_path : Str) (value : Option Str)
    (existing : Option (List EditableSchemaFieldInfo)) :
    Option (List EditableSchemaFieldInfo) :=
  match existing, value with
  | some field_infos, some value =>
    some ((setDescription field_path (some value) field_infos).getD
      (field_infos ++ [⟨field_path,some value,[],[]⟩]))
  | none, some value => some [⟨field_path,some value,[],[]⟩]
  | some field_infos, none => setDescription field_path none field_infos
  | none, none => none

section Aspects

theorem nextProperties_description {value : Option Str}
    {existing : Option EditableDatasetProperties} {p : EditableDatasetProperties}
    (h : nextProperties value existing = some p) : p.description = value := by
  cases existing with
  | none =>
    cases value with
    | none => cases h
    | some v =>
      cases h
      rfl
  | some e =>
    cases h
    rfl

/-- Where nothing is written there was no description to clear. -/
theorem nextProperties_eq_none {value : Option Str}
    {existing : Option EditableDatasetProperties} (h : nextProperties value existing = none) :
    value = none ∧ existing = none := by
  cases existing with
  | none =>
    cases value with
    | none => exact ⟨rfl,rfl⟩
    | some v => cases h
  | some e => cases h

variable {field_path : Str} {value : Option Str}

theorem fieldDescription_cons (fi : EditableSchemaFieldInfo)
    (rest : List EditableSchemaFieldInfo) (path : Str) :
    fieldDescription (fi::rest) path =
      if fi.fieldPath = path then fi.description else fieldDescription rest path := by
  by_cases h : fi.fieldPath = path <;> simp [fieldDescription,h]

theorem setDescription_describe {infos infos' : List EditableSchemaFieldInfo} {path : Str}
    (h : setDescription field_path value infos = some infos') :
    fieldDescription infos' path =
      if path = field_path then value else fieldDescription infos path := by
  induction infos generalizing infos' with
  | nil => cases h
  | cons fi rest ih =>
    rw [setDescription] at h
    by_cases hfi : fi.fieldPath = field_path
    · rw [if_pos hfi] at h
      cases h
      rw [fieldDescription_cons,fieldDescription_cons,hfi]
      by_cases hp : path = field_path
      · simp [hp]
      · simp [hp,Ne.symm hp]
    · rw [if_neg hfi,Option.map_eq_some_iff] at h
      obtain ⟨rest',hrest,rfl⟩ := h
      rw [fieldDescription_cons,fieldDescription_cons,ih hrest]
      by_cases hp : path = field_path
      · simp [hp,hfi]
      · simp [hp]

theorem setDescription_eq_none {infos : List EditableSchemaFieldInfo}
    (h : setDescription field_path value infos = none) :
    fieldDescription infos field_path = none := by
  induction infos with
  | nil => rfl
  | cons fi rest ih =>
    rw [setDescription] at h
    by_cases hfi : fi.fieldPath = field_path
    · rw [if_pos hfi] at h
      cases h
    · rw [if_neg hfi,Option.map_eq_none_iff] at h
      rw [fieldDescription_cons,if_neg hfi,ih h]

theorem fieldDescription_append {infos : List EditableSchemaFieldInfo} {path : Str}
    {fi : EditableSchemaFieldInfo} (h : setDescription fi.fieldPath value infos = none) :
    fieldDescription (infos ++ [fi]) path =
      if path = fi.fieldPath then fi.description else fieldDescription infos path := by
  induction infos with
  | nil =>
    rw [List.nil_append,fieldDescription_cons]
    by_cases hp : path = fi.fieldPath
    · simp [hp]
    · simp [hp,Ne.symm hp]
  | cons e rest ih =>
    rw [setDescription] at h
    by_cases he : e.fieldPath = fi.fieldPath
    · rw [if_pos he] at h
      cases h
    · rw [if_neg he,Option.map_eq_none_iff] at h
      rw [List.cons_append,fieldDescription_cons,fieldDescription_cons,ih h]
      by_cases hp : path = fi.fieldPath
      · simp [hp,he]
      · simp [hp]

/-- Writing back a schema sets the field's description and keeps those of the other fields
as they were read. -/
theorem nextSchema_describe {existing : Option (List EditableSchemaFieldInfo)}
    {infos : List EditableSchemaFieldInfo} {path : Str}
    (h : nextSchema field_path value existing = some infos) :
    fieldDescription infos path =
      if path = field_path then value else schemaDescription existing path := by
  cases existing with
  | none =>
    cases value with
    | none => cases h
    | some v =>
      cases h
      by_cases hp : path = field_path
      · simp [fieldDescription_cons,hp]
      · simp [hp,Ne.symm hp,fieldDescription,schemaDescription]
  | some old =>
    cases value with
    | none => exact setDescription_describe h
    | some v =>
      rw [nextSchema,Option.some.injEq] at h
      cases hset : setDescription field_path (some v) old with
      | none =>
        rw [hset,Option.getD_none] at h
        subst h
        exact fieldDescription_append hset
      | some new =>
        rw [hset,Option.getD_some] at h
        subst h
        exact setDescription_describe hset

theorem nextSchema_eq_none {existing : Option (List EditableSchemaFieldInfo)}
    (h : nextSchema field_path value existing = none) :
    value = none ∧ schemaDescription existing field_path = none := by
  cases existing with
  | none =>
    cases value with
    | none => exact ⟨rfl,rfl⟩
    | some v => cases h
  | some old =>
    cases value with
    | none => exact ⟨rfl,setDescription_eq_none h⟩
    | some v => cases h

end Aspects

section Candidates

variable (candidates : Table MetagenCandidate.candidate_id)

def setStatus (candidate_id : ℕ) (status : Status) : Table MetagenCandidate.candidate_id :=
  candidates.modify (fun c => c.candidate_id = candidate_id)
    (fun c => { c with status := status }) fun _ => rfl

/-- `cand.status = status` at the flush: an attribute that keeps the value it was read with
is left out of the UPDATE. -/
def assign (cand : MetagenCandidate) (status : Status) : Table MetagenCandidate.candidate_id :=
  if cand.status = status then candidates
  else setStatus candidates cand.candidate_id status

def demote : Option MetagenCandidate → Table MetagenCandidate.candidate_id
  | some sibling => setStatus candidates sibling.candidate_id .llm_approved
  | none => candidates

/-- The partial unique index `ix_metagen_candidates_one_approved` has another entry. -/
def conflicts (cand : MetagenCandidate) : Bool :=
  candidates.rows.any fun c =>
    c.dataset_urn = cand.dataset_urn && c.item_id = cand.item_id && c.status = .approved &&
      c.candidate_id ≠ cand.candidate_id

def approvedNow (candidate_id : ℕ) : Bool :=
  candidates.rows.any fun c => c.candidate_id = candidate_id && c.status = .approved

end Candidates

section Rows

/-- A row but for its status, the only column that reviews write. -/
def frozen (c : MetagenCandidate) : MetagenCandidate := { c with status := .llm_approved }

variable {t : Table MetagenCandidate.candidate_id} {cand c : MetagenCandidate} {id : ℕ}
  {status : Status}

theorem setStatus_frozen : (setStatus t id status).rows.map frozen = t.rows.map frozen := by
  rw [setStatus,Table.modify,List.map_map]
  refine List.map_congr_left fun c _ => ?_
  by_cases h : c.candidate_id = id <;> simp [frozen,h]

theorem mem_setStatus (h : c ∈ (setStatus t id status).rows) :
    c ∈ t.rows ∧ c.candidate_id ≠ id ∨ c.candidate_id = id ∧ c.status = status := by
  obtain ⟨c₀,hc₀,rfl⟩ := Table.mem_modify.mp h
  by_cases hid : c₀.candidate_id = id
  · simp [hid]
  · simp [hid,hc₀]

/-- Rows that agree but for the status are the same where their ids are. -/
theorem frozen_eq (hc : c ∈ t.rows) (hcand : frozen cand ∈ t.rows.map frozen)
    (hid : c.candidate_id = cand.candidate_id) : frozen c = frozen cand := by
  obtain ⟨c',hc',he⟩ := List.mem_map.mp hcand
  have hid' : (frozen c').candidate_id = (frozen cand).candidate_id := by rw [he]
  rw [Table.eq_of_key_eq hc hc' (hid.trans hid'.symm),he]

theorem approvedNow_eq : approvedNow t id = true ↔
    ∃ c ∈ t.rows, c.candidate_id = id ∧ c.status = .approved := by
  simp [approvedNow]

theorem demote_frozen {sibling : Option MetagenCandidate} :
    (demote t sibling).rows.map frozen = t.rows.map frozen := by
  cases sibling with
  | none => rfl
  | some sib => exact setStatus_frozen

theorem mem_demote {sibling : Option MetagenCandidate} (h : c ∈ (demote t sibling).rows)
    (hc : c.status = .approved) : c ∈ t.rows := by
  cases sibling with
  | none => exact h
  | some sib =>
    rcases mem_setStatus h with h | h
    · exact h.1
    · rw [h.2] at hc
      cases hc

theorem assign_frozen : (assign t cand status).rows.map frozen = t.rows.map frozen := by
  unfold assign
  split
  · rfl
  · exact setStatus_frozen

theorem mem_assign (h : c ∈ (assign t cand status).rows) :
    c ∈ t.rows ∨ c.candidate_id = cand.candidate_id ∧ c.status = status := by
  unfold assign at h
  split at h
  · exact .inl h
  · exact (mem_setStatus h).imp_left And.left

end Rows

inductive Verdict
  | approve | reject
  deriving DecidableEq

/-- A request; its candidate id is `none` where `uuid.UUID` does not read it. -/
structure ReviewRequest where
  item_id : Str
  candidate_id : Option ℕ
  verdict : Verdict

inductive ReviewFailure
  | precondition_failed (error_code : String) (message : List Piece)
  | entity_not_found (entity : String)
  | multiple_results_found
  | integrity_error

/-- What a committed review has to write to DataHub, `none` to clear it. -/
structure Job where
  item_id : Str
  target : Target
  value : Option Str

/-- What a request awaits next. -/
inductive Phase
  | idle
  | load_candidate (req : ReviewRequest)
  | load_sibling (cand : MetagenCandidate)
  | commit (verdict : Verdict) (cand : MetagenCandidate) (sibling : Option MetagenCandidate)
  | get_aspect (job : Job)
  | emit_properties (job : Job) (existing : Option EditableDatasetProperties)
  | emit_schema (job : Job) (field_path : Str)
      (existing : Option (List EditableSchemaFieldInfo))
  | done (result : Except ReviewFailure Unit)

/-- The database, DataHub, and two records of the run that no request reads: `owes` names
the request whose commit on an item was the last and has yet to reach DataHub, `withdrawn`
the items whose approved candidate was rejected last. -/
structure Shared where
  db : Db
  datahub : DataHub
  owes : Str → Option ℕ
  withdrawn : Str → Bool

namespace Shared

def setCandidates (s : Shared) (candidates : Table MetagenCandidate.candidate_id) : Shared :=
  { s with db := { s.db with candidates := candidates } }

def owe (s : Shared) (i : ℕ) (item_id : Str) (withdrawn : Bool) : Shared :=
  { s with
    owes := Function.update s.owes item_id (some i)
    withdrawn := Function.update s.withdrawn item_id withdrawn }

def settle (s : Shared) (i : ℕ) (item_id : Str) (datahub : DataHub) : Shared :=
  { s with
    datahub := datahub
    owes := if s.owes item_id = some i then Function.update s.owes item_id none else s.owes }

end Shared

section Program

variable (urn : Str)

def approve (i : ℕ) (cand : MetagenCandidate) (sibling : Option MetagenCandidate)
    (s : Shared) : Shared × Phase :=
  let candidates := assign (demote s.db.candidates sibling) cand .approved
  if cand.status ≠ .approved && conflicts candidates cand then
    (s,.done (.error .integrity_error))
  else match targetOf cand.item_id with
  | none => (s.setCandidates candidates,.done (.ok ()))
  | some target => ((s.setCandidates candidates).owe i cand.item_id false,
      .get_aspect ⟨cand.item_id,target,some cand.value⟩)

def reject (i : ℕ) (cand : MetagenCandidate) (s : Shared) : Shared × Phase :=
  let was_approved := cand.status = .approved
  let withdrawn := cand.status ≠ .rejected && approvedNow s.db.candidates cand.candidate_id
  let s' := s.setCandidates (assign s.db.candidates cand .rejected)
  if was_approved then match targetOf cand.item_id with
    | none => (s',.done (.ok ()))
    | some target => (s'.owe i cand.item_id (withdrawn || s.withdrawn cand.item_id),
        .get_aspect ⟨cand.item_id,target,none⟩)
  else if withdrawn then
    ({ s' with withdrawn := Function.update s'.withdrawn cand.item_id true },.done (.ok ()))
  else (s',.done (.ok ()))

/-- The boundary guard. -/
def start (req : ReviewRequest) (s : Shared) : Phase :=
  let notInBoundary := Phase.done (.error (.precondition_failed
    "METAGEN_DATASET_NOT_IN_BOUNDARY" [.text "Dataset ",.repr urn,
      .text " has no active boundary — add one via PUT .../attr/metagen/boundary"]))
  match s.db.boundaries.get? urn with
  | none => notInBoundary
  | some boundary => if boundary.is_enabled then .load_candidate req else notInBoundary

def load_candidate (req : ReviewRequest) (s : Shared) : Phase :=
  match s.db.candidates.rows.find? fun c =>
    req.candidate_id = some c.candidate_id && c.dataset_urn = urn && c.item_id = req.item_id with
  | none => .done (.error (.entity_not_found "metagen_candidate"))
  | some cand => match req.verdict with
    | .approve => .load_sibling cand
    | .reject => .commit .reject cand none

/-- `scalar_one_or_none` on the approved sibling. -/
def load_sibling (cand : MetagenCandidate) (s : Shared) : Phase :=
  match s.db.candidates.rows.filter fun c =>
    c.dataset_urn = urn && c.item_id = cand.item_id && c.status = .approved &&
      c.candidate_id ≠ cand.candidate_id with
  | [] => .commit .approve cand none
  | [sibling] => .commit .approve cand (some sibling)
  | _ => .done (.error .multiple_results_found)

/-- The read of the aspect, and the end of the request where there is nothing to clear. -/
def get_aspect (i : ℕ) (job : Job) (s : Shared) : Shared × Phase :=
  let nothing := (s.settle i job.item_id s.datahub,Phase.done (.ok ()))
  match job.target with
  | .dataset => match nextProperties job.value s.datahub.properties with
    | none => nothing
    | some _ => (s,.emit_properties job s.datahub.properties)
  | .field field_path => match nextSchema field_path job.value s.datahub.schema with
    | none => nothing
    | some _ => (s,.emit_schema job field_path s.datahub.schema)

def emit_aspect (i : ℕ) (job : Job) (datahub : DataHub) (s : Shared) : Shared × Phase :=
  (s.settle i job.item_id datahub,.done (.ok ()))

def review_candidate : Program Shared Phase (Option ReviewRequest) := fun i req? s phase =>
  match phase with
  | .idle => req?.map fun req => (s,start urn req s)
  | .load_candidate req => some (s,load_candidate urn req s)
  | .load_sibling cand => some (s,load_sibling urn cand s)
  | .commit .approve cand sibling => some (approve i cand sibling s)
  | .commit .reject cand _ => some (reject i cand s)
  | .get_aspect job => some (get_aspect i job s)
  | .emit_properties job existing => some (emit_aspect i job
      { s.datahub with properties := nextProperties job.value existing } s)
  | .emit_schema job field_path existing => some (emit_aspect i job
      { s.datahub with schema := nextSchema field_path job.value existing } s)
  | .done _ => none

end Program

end Metagen
end Dataspoke
