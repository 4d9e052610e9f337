import Dataspoke.MetagenStore
import Mathlib.Data.Char
import Mathlib.Data.List.Lex
import Mathlib.Data.List.Sort

/-!
# A metadata generation run

`_run_inner`: the datasets in scope one after the other, for each the debate over its items
and the budgets of the candidates that are good enough. A run writes in scope exactly when
every accepted debate whose candidates get in ends with a valid payload.
-/

namespace Dataspoke
namespace Metagen

open Python Pydantic Debate ToolLoop

/-- A run: its configuration, and what comes from outside. The columns are those of a
dataset's schema; `others` are the commits of other requests during a debate. -/
structure RunInput where
  conf : MetagenConf
  dry_run : Bool
  run_id : Str
  resolved_urns : List Str
  confidence_threshold : Number
  max_turns : ℕ
  producer_max_iterations : ℕ
  field_paths : Str → List Str
  others : Str → Db → Db
  canonical_hash : Json → Str
  review_errors : Json → List ValidationError
  sample_rag_anchors : Str → Json → Option Unit
  build_reviewer_prompt : Str → Json → Option Unit
  build_producer_revision_prompt : Str → Json → Json → Option Unit
  producer : Str → ℕ → ℕ → Reply
  reviewer : Str → ℕ → ℕ → Reply

/-- The resolved datasets with an enabled boundary, sorted. -/
def enumerate_in_scope_datasets (resolved_urns : List Str) (db : Db) : List Str :=
  let enabled (urn : Str) := (db.boundaries.get? urn).any (·.is_enabled)
  (resolved_urns.dedup.filter enabled).insertionSort fun a b => a ≤ b

def enumerate_target_items (urn : Str) (boundary : MetagenBoundary) (field_paths : List Str)
    (approved : List (Str × Str)) : List Str :=
  let columns := (field_paths.filter (· ≠ [])).map fun p =>
    "column.".toList ++ p ++ ".description".toList
  ((if datasetDescription ∈ boundary.allowed then [datasetDescription] else []) ++
    if columnDescription ∈ boundary.allowed then columns else []).filter fun item_id =>
      (urn,item_id) ∉ approved

variable (L : Lib) (i : RunInput)

/-- What the validator of a dataset checks against: the boundary and the approved items the
run has read for it. -/
def RunInput.rules (urn : Str) (db : Db) (boundary : MetagenBoundary) : Rules where
  in_scope_urns := [urn]
  boundary_allowed := [(urn,boundary.allowed)]
  schema_field_paths := [(urn,(i.field_paths urn).filter (· ≠ []))]
  approved_item_ids := approved_item_ids db urn

def RunInput.setup (urn : Str) (R : Rules) : Setup MetagenLLMOutput where
  schema := outputSchema L
  schema_errors := L.schema_errors
  validate_tool := validate_tool L R
  review := reviewSchema
  review_errors := i.review_errors
  review_tool := review_tool
  producer_max_iterations := i.producer_max_iterations
  max_turns := i.max_turns
  canonical_hash := i.canonical_hash
  extract_rebuttals _ := some none
  sample_rag_anchors := i.sample_rag_anchors urn
  build_reviewer_prompt := i.build_reviewer_prompt urn
  build_producer_revision_prompt := i.build_producer_revision_prompt urn
  producer := i.producer urn
  reviewer := i.reviewer urn

/-- The candidates at or above the threshold. -/
def RunInput.accepted (output : MetagenLLMOutput) : List MetagenLLMCandidate :=
  output.candidates.filter fun c => i.confidence_threshold.le c.confidence_score

/-- A dataset up to its persist phase: the tables that starts with, and what it persists.
`none` when an exception leaves the run. -/
def debateDataset (urn : Str) (db : Db) :
    Option (Db × Option (DebateResult × MetagenLLMOutput)) :=
  match db.boundaries.get? urn with
  | none => some (db,none)
  | some boundary =>
    if !boundary.is_enabled then some (db,none)
    else if enumerate_target_items urn boundary (i.field_paths urn) (approved_item_ids db urn) = []
    then some (db,none)
    else match run_debate (i.setup L urn (i.rules urn db boundary)) with
    | none => none
    | some debate_result =>
      let db := i.others urn db
      if debate_result.outcome ≠ .accept then some (db,none)
      else match (outputSchema L).decode debate_result.payload with
      | none => some (db,none)
      | some candidate_output =>
        if i.dry_run then some (db,none) else some (db,some (debate_result,candidate_output))

def persist : Db × Option (DebateResult × MetagenLLMOutput) → Db
  | (db,none) => db
  | (db,some (debate_result,candidate_output)) =>
    applyBudgets i.conf debate_result.transcript i.run_id (i.accepted candidate_output) db

def processDataset (urn : Str) (db : Db) : Option Db := (debateDataset L i urn db).map (persist i)

/-- The datasets from the first on, each with the tables it starts with. An exception ends
the run. -/
def roundsFrom : List Str → Db → List (Str × Db)
  | [], _ => []
  | urn::urns, db => (urn,db) ::
    match processDataset L i urn db with
    | some db => roundsFrom urns db
    | none => []

/-- The tables a run leaves, which commits after every candidate. -/
def processDatasets : List Str → Db → Db
  | [], db => db
  | urn::urns, db =>
    match processDataset L i urn db with
    | some db => processDatasets urns db
    | none => db

/-- The datasets of a run and the tables they start with, after the rejected candidates of
the configuration are cleared. -/
def rounds (db : Db) : List (Str × Db) :=
  if !i.conf.is_enabled && !i.dry_run then []
  else
    let in_scope_urns := enumerate_in_scope_datasets i.resolved_urns db
    roundsFrom L i in_scope_urns
      (if i.dry_run then db else clear_rejected_candidates in_scope_urns i.conf.id db)

def run_inner (db : Db) : Db :=
  if !i.conf.is_enabled && !i.dry_run then db
  else
    let in_scope_urns := enumerate_in_scope_datasets i.resolved_urns db
    processDatasets L i in_scope_urns
      (if i.dry_run then db else clear_rejected_candidates in_scope_urns i.conf.id db)

section Scope

variable {L i}

/-- The dataset's debate is accepted with a payload that parses, and its candidates go to the
budgets. -/
structure Writes (L : Lib) (i : RunInput) (urn : Str) (db : Db) (boundary : MetagenBoundary)
    (result : DebateResult) (output : MetagenLLMOutput) : Prop where
  bounded : db.boundaries.get? urn = some boundary
  enabled : boundary.is_enabled = true
  targets : enumerate_target_items urn boundary (i.field_paths urn)
    (approved_item_ids db urn) ≠ []
  debate : run_debate (i.setup L urn (i.rules urn db boundary)) = some result
  outcome : result.outcome = .accept
  parses : (outputSchema L).decode result.payload = some output
  persists : i.dry_run = false

/-- The run persists the row while it processes the dataset. -/
def Persisted (L : Lib) (i : RunInput) (urn : Str) (db : Db) (row : MetagenCandidate) : Prop :=
  ∃ start, debateDataset L i urn db = some start ∧
    row ∈ (persist i start).candidates.rows ∧ row ∉ start.1.candidates.rows

/-- What is persisted for the dataset belongs to a payload the validator accepts, each of
whose candidates is in scope and for its own item. -/
def WriteScope (L : Lib) (i : RunInput) (urn : Str) (db : Db) : Prop :=
  ∀ row, Persisted L i urn db row → ∃ boundary result output,
    Writes L i urn db boundary result output ∧
    validate_metagen_output L (i.rules urn db boundary) result.payload = some [] ∧
    OutputInScope (i.rules urn db boundary) output ∧
    ∃ cand ∈ output.candidates, RowOf i.conf i.run_id cand row

/-- The payload of an accepted debate is valid, unless the budgets let none of its
candidates in. -/
def ValidOrFull (L : Lib) (i : RunInput) (urn : Str) (db : Db) : Prop :=
  ∀ boundary result output, Writes L i urn db boundary result output →
    validate_metagen_output L (i.rules urn db boundary) result.payload = some [] ∨
    ∀ cand ∈ i.accepted output, ¬ HasRoom i.conf cand (i.others urn db).candidates

theorem debateDataset_cases {urn : Str} {db : Db}
    {start : Db × Option (DebateResult × MetagenLLMOutput)}
    (h : debateDataset L i urn db = some start) :
    start.2 = none ∨ ∃ boundary result output, Writes L i urn db boundary result output ∧
      start = (i.others urn db,some (result,output)) := by
  unfold debateDataset at h
  split at h
  · cases h
    exact .inl rfl
  rename_i boundary hboundary
  split at h
  · cases h
    exact .inl rfl
  rename_i henabled
  split at h
  · cases h
    exact .inl rfl
  rename_i htargets
  split at h
  · cases h
  rename_i result hresult
  dsimp only at h
  split at h
  · cases h
    exact .inl rfl
  rename_i houtcome
  split at h
  · cases h
    exact .inl rfl
  rename_i output houtput
  split at h
  · cases h
    exact .inl rfl
  rename_i hdry
  cases h
  exact .inr ⟨boundary,result,output,⟨hboundary,by simpa using henabled,htargets,hresult,
    not_not.mp houtcome,houtput,by simpa using hdry⟩,rfl⟩

theorem debateDataset_start {urn : Str} {db : Db}
    {start : Db × Option (DebateResult × MetagenLLMOutput)}
    (h : debateDataset L i urn db = some start) : start.1 = db ∨ start.1 = i.others urn db := by
  unfold debateDataset at h
  split at h
  · cases h
    exact .inl rfl
  split at h
  · cases h
    exact .inl rfl
  split at h
  · cases h
    exact .inl rfl
  split at h
  · cases h
  refine .inr ?_
  dsimp only at h
  split at h
  · cases h
    rfl
  split at h
  · cases h
    rfl
  split at h <;> cases h <;> rfl

theorem debateDataset_of_writes {urn : Str} {db : Db} {boundary : MetagenBoundary}
    {result : DebateResult} {output : MetagenLLMOutput}
    (h : Writes L i urn db boundary result output) :
    debateDataset L i urn db = some (i.others urn db,some (result,output)) := by
  unfold debateDataset
  rw [h.bounded]
  dsimp only
  rw [if_neg (by simp [h.enabled]),if_neg h.targets,h.debate]
  dsimp only
  rw [if_neg (by simp [h.outcome]),h.parses]
  dsimp only
  rw [if_neg (by simp [h.persists])]

/-- One dataset is written in scope exactly when its accepted payload is valid or finds no
room. -/
theorem writeScope_dataset_iff {urn : Str} {db : Db} :
    WriteScope L i urn db ↔ ValidOrFull L i urn db := by
  constructor
  · intro h boundary result output hw
    by_contra hnot
    rw [not_or] at hnot
    have hroom : ∃ cand ∈ i.accepted output,
        HasRoom i.conf cand (i.others urn db).candidates := by
      simpa using hnot.2
    obtain ⟨row,hrow,hnew⟩ := (applyBudgets_spec i.conf result.transcript i.run_id
      (i.accepted output) (i.others urn db)).2.1 hroom
    obtain ⟨boundary',result',output',hw',hvalid,-⟩ :=
      h row ⟨_,debateDataset_of_writes hw,hrow,hnew⟩
    obtain rfl : boundary = boundary' := Option.some.inj (hw.bounded.symm.trans hw'.bounded)
    obtain rfl : result = result' := Option.some.inj (hw.debate.symm.trans hw'.debate)
    exact hnot.1 hvalid
  · rintro h row ⟨start,hstart,hrow,hnew⟩
    rcases debateDataset_cases hstart with hnone | ⟨boundary,result,output,hw,rfl⟩
    · obtain ⟨db',w⟩ := start
      obtain rfl : w = none := hnone
      exact absurd hrow hnew
    obtain ⟨hrows,-,hsame⟩ := applyBudgets_spec i.conf result.transcript i.run_id
      (i.accepted output) (i.others urn db)
    rcases h boundary result output hw with hvalid | hfull
    · obtain ⟨output',hparse,hscope⟩ := validate_accepts_iff.mp hvalid
      obtain rfl : output = output' := Option.some.inj (hw.parses.symm.trans hparse)
      rcases hrows row hrow with hold | ⟨cand,hcand,hof⟩
      · exact absurd hold hnew
      · exact ⟨boundary,result,output,hw,hvalid,hscope,cand,(List.mem_filter.mp hcand).1,hof⟩
    · have hrow' : row ∈ (applyBudgets i.conf result.transcript i.run_id (i.accepted output)
          (i.others urn db)).candidates.rows := hrow
      rw [hsame hfull] at hrow'
      exact absurd hrow' hnew

theorem processDatasets_row {urns : List Str} {db : Db} {row : MetagenCandidate}
    (h : row ∈ (processDatasets L i urns db).candidates.rows) :
    row ∈ db.candidates.rows ∨ ∃ r ∈ roundsFrom L i urns db,
      Persisted L i r.1 r.2 row ∨ row ∈ (i.others r.1 r.2).candidates.rows := by
  induction urns generalizing db with
  | nil => exact .inl h
  | cons urn urns ih =>
    unfold processDatasets at h
    rw [roundsFrom]
    cases hround : debateDataset L i urn db with
    | none =>
      simp only [processDataset,hround,Option.map_none] at h
      exact .inl h
    | some start =>
      simp only [processDataset,hround,Option.map_some] at h ⊢
      rcases ih h with hrow | ⟨r,hr,hrow⟩
      · by_cases hstart : row ∈ start.1.candidates.rows
        · rcases debateDataset_start hround with hdb | hdb
          · rw [hdb] at hstart
            exact .inl hstart
          · rw [hdb] at hstart
            exact .inr ⟨(urn,db),by simp,.inr hstart⟩
        · exact .inr ⟨(urn,db),by simp,.inl ⟨start,hround,hrow,hstart⟩⟩
      · exact .inr ⟨r,by simp [hr],hrow⟩

/-- Every row a run leaves was there before, or the run persisted it for one of its datasets,
or another request committed it meanwhile. -/
theorem run_inner_row {db : Db} {row : MetagenCandidate}
    (h : row ∈ (run_inner L i db).candidates.rows) :
    row ∈ db.candidates.rows ∨ ∃ r ∈ rounds L i db,
      Persisted L i r.1 r.2 row ∨ row ∈ (i.others r.1 r.2).candidates.rows := by
  unfold run_inner at h
  unfold rounds
  split
  · rename_i hdisabled
    rw [if_pos hdisabled] at h
    exact .inl h
  · rename_i henabled
    rw [if_neg henabled] at h
    refine (processDatasets_row h).imp_left fun hrow => ?_
    split at hrow
    · exact hrow
    · exact (Table.mem_remove.mp hrow).1

/-- A run writes in scope exactly when every accepted debate ends with a valid payload or
with candidates the budgets keep out. -/
theorem writeScope_iff (L : Lib) (i : RunInput) (db : Db) :
    (∀ r ∈ rounds L i db, WriteScope L i r.1 r.2) ↔
      ∀ r ∈ rounds L i db, ValidOrFull L i r.1 r.2 :=
  forall₂_congr fun _ _ => writeScope_dataset_iff

end Scope

def sampleLib : Lib := ⟨fun _ => none,fun _ => "",fun _ => []⟩

def str (s : String) : Json := .str s.toList

def obj (items : List (String × Json)) : Json := .obj (items.map fun kv => (kv.1.toList,kv.2))

def candidatePayload (urn : String) : Json :=
  obj [("candidates",.arr [obj [("dataset_urn",str urn),("item_id",str "dataset.description"),
    ("value",str "Orders"),("confidence_score",.num (.fin 1))]])]

def sampleRun (urn : String) : RunInput where
  conf := ⟨"conf".toList,true,3,false⟩
  dry_run := false
  run_id := "run".toList
  resolved_urns := ["urn".toList]
  confidence_threshold := .fin 0
  max_turns := 2
  producer_max_iterations := 1
  field_paths _ := []
  others _ db := db
  canonical_hash _ := []
  review_errors _ := []
  sample_rag_anchors _ _ := some ()
  build_reviewer_prompt _ _ := some ()
  build_producer_revision_prompt _ _ _ := some ()
  producer _ _ _ :=
    .message [⟨"metagen_validate".toList,[("payload".toList,candidatePayload urn)]⟩]
  reviewer _ _ _ := .message [⟨"metagen_review".toList,[("overall_verdict".toList,str "accept"),
    ("item_verdicts".toList,.arr []),("summary".toList,str "")]⟩]

def sampleDb : Db where
  boundaries := (Table.empty _).put ⟨"urn".toList,true,[datasetDescription]⟩
  items := .empty _
  candidates := .empty _

/-- The payload for another dataset exhausts the tool loop, is accepted by the reviewer and
persisted. -/
theorem writes_out_of_scope :
    ¬ ∀ (L : Lib) (i : RunInput) (db : Db), ∀ r ∈ rounds L i db, WriteScope L i r.1 r.2 := by
  intro hall
  have hscope := hall sampleLib (sampleRun "other") sampleDb ("urn".toList,sampleDb) (.head _)
  obtain ⟨boundary,result,output,hw,-,hin,cand,hcand,hof⟩ :=
    hscope _ ⟨_,rfl,.head _,List.not_mem_nil⟩
  obtain rfl : boundary = ⟨"urn".toList,true,[datasetDescription]⟩ :=
    (Option.some.inj hw.bounded).symm
  have hurn := (hin.1 cand hcand).dataset
  rw [← hof.2.2.1] at hurn
  exact absurd hurn (by decide)

end Metagen
end Dataspoke
