import Dataspoke.IngestionEvidence
import Dataspoke.ValidationReads

/-!
# Measurers

The three measurers of metrics, each on what it reads: the ingestion tables, the validation
tables, or the documentation that DataHub answers page by page.
-/

namespace Dataspoke
namespace Metrics

open Python DatasetScope

structure DocumentationAspects where
  table_description : Option Str
  editable_table_description : Option Str
  field_descriptions : List (Str × Str)
  editable_field_descriptions : List (Str × Str)

def DocumentationAspects.empty : DocumentationAspects := ⟨none,none,[],[]⟩

/-- An entity of the answer, null where its aspect or its field is. -/
structure DocEntity where
  urn : Option Str
  description : Option Str
  editable_description : Option Str
  fields : List (Str × Option Str)
  editable_fields : List (Str × Option Str)

def _DOC_HEALTH_BATCH_SIZE : ℕ := 100

/-- `text or None`. -/
def filled (text : Option Str) : Option Str := text.filter fun s => !s.isEmpty

def DocEntity.aspects (entity : DocEntity) : DocumentationAspects where
  table_description := filled entity.description
  editable_table_description := filled entity.editable_description
  field_descriptions := (entity.fields.filter fun f => !f.1.isEmpty).foldl
    (fun descs f => setItem f.1 (f.2.getD []) descs) []
  editable_field_descriptions :=
    (entity.editable_fields.filterMap fun f => (filled f.2).map fun desc => (f.1,desc)).foldl
      (fun descs f => setItem f.1 f.2 descs) []

/-- One entity of a page; an entity without a URN is passed over. -/
def addEntity (result : List (Str × DocumentationAspects)) (entity : DocEntity) :
    List (Str × DocumentationAspects) :=
  match filled entity.urn with
  | none => result
  | some urn => setItem urn entity.aspects result

/-- What DataHub answers for a page of URNs; `none` where the read raises. -/
abbrev DocGms := List Str → Option (List DocEntity)

def get_dataset_documentation_aspects (gms : DocGms) (urns : List Str) :
    Option (List (Str × DocumentationAspects)) :=
  (slices _DOC_HEALTH_BATCH_SIZE urns).foldlM
    (fun result page => (gms page).map fun entities => entities.foldl addEntity result)
    (urns.foldl (fun result urn => setItem urn .empty result) [])

structure Estate where
  ingestion : Ingestion.Feed.Tables
  plan : Ingestion.Feed.Plan ingestion
  timestamp : ℤ → ℚ
  configs : Table Validation.ValidationConfig.dataset_urn
  results : Table Validation.ValidationResult.id
  gms : DocGms
  isoformat : ℤ → Str
  /-- `int(value)`; `none` where it raises. -/
  int : Value → Option ℤ
  int_int : ∀ n, int (.int n) = some n

variable (E : Estate)

def Estate.time_window_sec (metric_conf : List (Str × Value)) : Option ℤ :=
  (get? "time_window_sec".toList metric_conf).bind E.int

/-- `text and text.strip()` -/
def described (text : Option Str) : Bool := (filled text).any fun s => !(Ingestion.stripped s).isEmpty

/-- The editable descriptions over those of the schema. -/
def field_descs (aspects : DocumentationAspects) : List (Str × Str) :=
  aspects.editable_field_descriptions.foldl
    (fun descs f => if f.2.isEmpty then descs else setItem f.1 f.2 descs)
    aspects.field_descriptions

def docVerdict (aspects : DocumentationAspects) (urn : Str) : DatasetVerdict :=
  let has_table_desc :=
    described ((filled aspects.editable_table_description).or aspects.table_description)
  if aspects.field_descriptions.isEmpty then
    { urn := urn
      met := false
      detail := [("missing_table_description".toList,.bool !has_table_desc),
        ("missing_column_descriptions".toList,.list [])] }
  else
    let missing_columns :=
      ((field_descs aspects).filter fun f => !described (some f.2)).map Prod.fst
    { urn := urn
      met := has_table_desc && missing_columns.isEmpty
      detail := [("missing_table_description".toList,.bool !has_table_desc),
        ("missing_column_descriptions".toList,.list (missing_columns.map .str))] }

def docHealth (datasets : List Str) : Except Error (List (Str × Number) × List DatasetVerdict) :=
  match get_dataset_documentation_aspects E.gms datasets with
  | none => .error .measurer
  | some aspects_map =>
    let verdicts := datasets.map fun urn => docVerdict ((get? urn aspects_map).getD .empty) urn
    .ok ([("total".toList,.fin datasets.length),
      ("doc_health".toList,.fin (verdicts.countP (·.met)))],verdicts)

section Freshness

open Ingestion.Feed

/-- The evidence of a dataset, with the tier that has it. -/
def evidence (observed : GroupMax.Dict (Str × Str) ℤ) (latest : GroupMax.Dict Str ℤ) (urn : Str)
    (owner : Ingestion.IngestionSource) : Option (ℤ × String) :=
  match observed.lookup (Uuid.str owner.id,urn) with
  | some t => some (t,"observation")
  | none => (latest.lookup (Uuid.str owner.id)).map fun t => (t,"source_level")

/-- Instants are not before the epoch. -/
def freshVerdict (window_sec cutoff : ℤ) (evidence : Option (ℤ × String)) (urn : Str) :
    DatasetVerdict where
  urn := urn
  met := evidence.any fun e => decide (cutoff ≤ e.1)
  evidence_at := evidence.map fun e => e.1.toNat
  detail := [("last_event_at".toList,evidence.elim .none fun e => .str (E.isoformat e.1)),
    ("time_window_sec".toList,.int window_sec),
    ("evidence_tier".toList,evidence.elim .none fun e => .str e.2.toList)]

def ownersOf (datasets : List Str) : List (Str × Option Ingestion.IngestionSource) :=
  Ingestion.Lookup.reverse_lookup_batch E.timestamp E.plan.lookups datasets

def source_ids (datasets : List Str) : List Str :=
  sortedSet ((ownersOf E datasets).filterMap fun o => o.2.map fun owner => Uuid.str owner.id)

/-- The window in seconds and the instant that it reaches back to. -/
def Estate.window (metric_conf : List (Str × Value)) (now : ℕ) : Option (ℤ × ℤ) := do
  let window_sec ← E.time_window_sec metric_conf
  let cutoff ← secondsBefore now window_sec
  return (window_sec,cutoff)

def freshness (datasets : List Str) (metric_conf : List (Str × Value)) (now : ℕ) :
    Except Error (List (Str × Number) × List DatasetVerdict) :=
  match E.window metric_conf now with
  | none => .error .measurer
  | some (window_sec,cutoff) =>
    let owners := ownersOf E datasets
    let observed_by_dataset :=
      latest_ingestion_observed_by_dataset E.plan (source_ids E datasets)
    match latest_ingestion_complete_by_source E.plan (source_ids E datasets) with
    | .error _ => .error .measurer
    | .ok latest_by_source =>
      let verdicts := datasets.map fun urn =>
        freshVerdict E window_sec cutoff
          ((get? urn owners).join.bind (evidence observed_by_dataset latest_by_source urn)) urn
      .ok ([("total".toList,.fin datasets.length),
        ("ingested_in_time".toList,.fin (verdicts.countP (·.met)))],verdicts)

end Freshness

def validationScore (datasets : List Str) (metric_conf : List (Str × Value)) (now : ℕ) :
    Except Error (List (Str × Number) × List DatasetVerdict) :=
  if datasets.isEmpty then
    .ok ([("valid_confd".toList,.fin 0),("valid_in_time".toList,.fin 0)],[])
  else
    match E.time_window_sec metric_conf with
    | none => .error .measurer
    | some window_sec =>
      match Validation.measure E.isoformat now window_sec E.configs E.results datasets with
      | none => .error .measurer
      | some out => .ok out

def measurer (metric_type : Str) (datasets : List Str) (metric_conf : List (Str × Value))
    (now : ℕ) : Except Error (List (Str × Number) × List DatasetVerdict) :=
  if metric_type = "ingestion-freshness".toList then freshness E datasets metric_conf now
  else if metric_type = "validation-score".toList then validationScore E datasets metric_conf now
  else if metric_type = "doc-health".toList then docHealth E datasets
  else .error .measurer

def totalKey (metric_type : Str) : Str :=
  if metric_type = "validation-score".toList then "valid_confd".toList else "total".toList

def metKey (metric_type : Str) : Str :=
  if metric_type = "ingestion-freshness".toList then "ingested_in_time".toList
  else if metric_type = "validation-score".toList then "valid_in_time".toList
  else "doc_health".toList

/-- Whether a measurer has a verdict for the dataset. -/
def judges (metric_type urn : Str) : Bool :=
  metric_type ≠ "validation-score".toList || (E.configs.get? urn).isSome

/-- The values count the verdicts, which are on the datasets that are judged. -/
structure Measured (metric_type : Str) (datasets : List Str) (values : List (Str × Number))
    (verdicts : List DatasetVerdict) : Prop where
  urns : verdicts.map (·.urn) = datasets.filter (judges E metric_type)
  values : values = [(totalKey metric_type,.fin verdicts.length),
    (metKey metric_type,.fin (verdicts.countP (·.met)))]

variable {E} {datasets : List Str} {metric_conf : List (Str × Value)} {now : ℕ}
  {out : List (Str × Number) × List DatasetVerdict}

theorem docVerdict_urn (aspects : DocumentationAspects) (urn : Str) :
    (docVerdict aspects urn).urn = urn := by
  rw [docVerdict]
  split <;> rfl

theorem judges_all {metric_type : Str} (h : metric_type ≠ "validation-score".toList) :
    datasets.filter (judges E metric_type) = datasets :=
  List.filter_eq_self.mpr fun _ _ => Bool.or_eq_true_iff.mpr (.inl (decide_eq_true h))

theorem docHealth_ok (h : docHealth E datasets = .ok out) :
    out.2.map (·.urn) = datasets ∧ out.1 = [("total".toList,.fin out.2.length),
      ("doc_health".toList,.fin (out.2.countP (·.met)))] := by
  rw [docHealth] at h
  split at h
  · cases h
  · cases h
    refine ⟨?_,by rw [List.length_map]⟩
    rw [List.map_map]
    exact (List.map_congr_left fun urn _ => docVerdict_urn _ urn).trans (List.map_id _)

theorem freshness_ok (h : freshness E datasets metric_conf now = .ok out) :
    out.2.map (·.urn) = datasets ∧ out.1 = [("total".toList,.fin out.2.length),
      ("ingested_in_time".toList,.fin (out.2.countP (·.met)))] := by
  rw [freshness] at h
  split at h
  · cases h
  · dsimp only at h
    split at h
    · cases h
    · cases h
      refine ⟨?_,by rw [List.length_map]⟩
      rw [List.map_map]
      exact List.map_id _

/-- The measurer of validation judges the datasets that have a configuration. -/
theorem configured_urns (configs : Table Validation.ValidationConfig.dataset_urn) :
    (Validation.configured configs datasets).map Prod.fst =
      datasets.filter fun urn => (configs.get? urn).isSome := by
  have hguard : ∀ urn, ((get? urn (Validation.attribute_by_urn configs datasets)).map
      fun attr => (urn,attr)).map Prod.fst =
        if (get? urn (Validation.attribute_by_urn configs datasets)).isSome then some urn else none := by
    intro urn
    cases get? urn (Validation.attribute_by_urn configs datasets) <;> rfl
  rw [Validation.configured,List.map_filterMap,List.filterMap_congr fun urn _ => hguard urn,
    ← List.filterMap_eq_filter]
  refine List.filterMap_congr fun urn hurn => ?_
  rw [Validation.get?_attribute_by_urn hurn,Option.isSome_map]
  rfl

theorem measure_urns {isoformat : ℤ → Str} {window_sec : ℤ}
    {configs : Table Validation.ValidationConfig.dataset_urn}
    {results : Table Validation.ValidationResult.id}
    (h : Validation.measure isoformat now window_sec configs results datasets = some out) :
    out.2.map (·.urn) = datasets.filter fun urn => (configs.get? urn).isSome := by
  obtain ⟨hmap,-⟩ := Validation.measure_eq_some.mp h
  have hverdicts := congrArg (List.map (Option.map DatasetVerdict.urn)) hmap
  rw [List.map_map,List.map_map] at hverdicts
  apply List.map_injective_iff.mpr (Option.some_injective Str)
  rw [← configured_urns,List.map_map,List.map_map]
  refine (hverdicts.symm.trans (List.map_congr_left fun c hc => ?_))
  have hmem := List.mem_map_of_mem (f:=fun c : Str × List (Str × ℤ) =>
    Validation.evaluate isoformat now window_sec c.2 c.1 (get? c.1 (Validation.measured_latest
      results ((Validation.configured configs datasets).map Prod.fst)))) hc
  rw [hmap] at hmem
  obtain ⟨v,-,hv⟩ := List.mem_map.mp hmem
  exact (congrArg (Option.map DatasetVerdict.urn) hv.symm).trans
    (congrArg some (Validation.evaluate_urn hv.symm))

theorem validationScore_ok (h : validationScore E datasets metric_conf now = .ok out) :
    out.2.map (·.urn) = datasets.filter (fun urn => (E.configs.get? urn).isSome) ∧
      out.1 = [("valid_confd".toList,.fin out.2.length),
        ("valid_in_time".toList,.fin (out.2.countP (·.met)))] := by
  rw [validationScore] at h
  split at h
  · rename_i hempty
    cases h
    rw [List.isEmpty_iff.mp hempty]
    exact ⟨rfl,rfl⟩
  · split at h
    · cases h
    · split at h
      · cases h
      · rename_i out' hmeasure
        cases h
        refine ⟨measure_urns hmeasure,?_⟩
        obtain ⟨hmap,hvalues⟩ := Validation.measure_eq_some.mp hmeasure
        have hlength := congrArg List.length hmap
        rw [List.length_map,List.length_map] at hlength
        rw [hvalues,hlength]

theorem measurer_ok {metric_type : Str}
    (h : measurer E metric_type datasets metric_conf now = .ok out) :
    Measured E metric_type datasets out.1 out.2 := by
  rw [measurer] at h
  split at h
  · rename_i htype
    obtain ⟨hurns,hvalues⟩ := freshness_ok h
    have hne : metric_type ≠ "validation-score".toList := by rw [htype]; decide
    refine ⟨by rw [hurns,judges_all hne],?_⟩
    rw [hvalues,totalKey,if_neg hne,metKey,if_pos htype]
  split at h
  · rename_i hfresh htype
    obtain ⟨hurns,hvalues⟩ := validationScore_ok h
    refine ⟨hurns.trans ?_,by rw [hvalues,totalKey,if_pos htype,metKey,if_neg hfresh,if_pos htype]⟩
    exact List.filter_congr fun urn _ => by rw [judges,htype]; rfl
  split at h
  · rename_i hfresh hne htype
    obtain ⟨hurns,hvalues⟩ := docHealth_ok h
    refine ⟨by rw [hurns,judges_all hne],?_⟩
    rw [hvalues,totalKey,if_neg hne,metKey,if_neg hfresh,if_neg hne]
  · cases h

/-- `int` of a number that is an int already. -/
def plainInt : Value → Option ℤ
  | .int n => some n
  | _ => none

theorem plainInt_int (n : ℤ) : plainInt (.int n) = some n := rfl

end Metrics
end Dataspoke
