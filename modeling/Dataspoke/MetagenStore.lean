import Dataspoke.MetagenModels
import Dataspoke.Table

/-!
# The metadata tables

Boundaries, items and candidates, and what a generation run writes to them. The rows of the
candidate table are in the order of their creation.
-/

namespace Dataspoke
namespace Metagen

open Python Debate

inductive Status
  | llm_approved | approved | rejected
  deriving DecidableEq

structure MetagenBoundary where
  dataset_urn : Str
  is_enabled : Bool
  allowed : List Str

structure MetagenItem where
  dataset_urn : Str
  item_id : Str
  kind : Str
  field_path : Option Str

def MetagenItem.key (item : MetagenItem) : Str × Str := (item.dataset_urn,item.item_id)

structure MetagenCandidate where
  candidate_id : ℕ
  conf_id : Option Str
  dataset_urn : Str
  item_id : Str
  run_id : Str
  value : Str
  confidence_score : Number
  status : Status
  evidence : Transcript

structure MetagenConf where
  id : Str
  is_enabled : Bool
  result_limit : ℕ
  overwrite_pending : Bool

structure Db where
  boundaries : Table MetagenBoundary.dataset_urn
  items : Table MetagenItem.key
  candidates : Table MetagenCandidate.candidate_id

/-- `uuid.uuid4()`, an id that no row has. -/
def uuid4 (candidates : Table MetagenCandidate.candidate_id) : ℕ :=
  (candidates.rows.map (·.candidate_id)).foldr max 0 + 1

def clear_rejected_candidates (in_scope_urns : List Str) (conf_id : Str) (db : Db) : Db :=
  { db with candidates := db.candidates.remove fun c =>
      c.conf_id = some conf_id && c.dataset_urn ∈ in_scope_urns && c.status = .rejected }

def approved_item_ids (db : Db) (urn : Str) : List (Str × Str) :=
  (db.candidates.rows.filter fun c => c.dataset_urn = urn && c.status = .approved).map
    fun c => (c.dataset_urn,c.item_id)

section Budget

variable (conf : MetagenConf) (urn item_id : Str)

def ownRows (candidates : Table MetagenCandidate.candidate_id) : List MetagenCandidate :=
  candidates.rows.filter fun c =>
    c.conf_id = some conf.id && c.dataset_urn = urn && c.item_id = item_id

def nonRejectedCount (candidates : Table MetagenCandidate.candidate_id) : ℕ :=
  ((ownRows conf urn item_id candidates).filter fun c => c.status ≠ .rejected).length

/-- The oldest `llm_approved` row, which makes room for a new one. -/
def oldest (candidates : Table MetagenCandidate.candidate_id) : Option MetagenCandidate :=
  (ownRows conf urn item_id candidates).find? fun c => c.status = .llm_approved

def itemOf : MetagenItem where
  dataset_urn := urn
  item_id := item_id
  kind := kindOf item_id
  field_path := fieldPathOf item_id

def Db.materialise (db : Db) : Db :=
  match db.items.get? (urn,item_id) with
  | some _ => db
  | none => { db with items := db.items.put (itemOf urn item_id) }

structure Budget where
  added : Bool
  evicted : Bool
  deriving DecidableEq

def newRow (cand : MetagenLLMCandidate) (evidence : Transcript) (run_id : Str)
    (candidates : Table MetagenCandidate.candidate_id) : MetagenCandidate where
  candidate_id := uuid4 candidates
  conf_id := some conf.id
  dataset_urn := cand.dataset_urn
  item_id := cand.item_id
  run_id := run_id
  value := cand.value
  confidence_score := cand.confidence_score
  status := .llm_approved
  evidence := evidence

def apply_per_item_budget (cand : MetagenLLMCandidate) (evidence : Transcript) (run_id : Str)
    (db : Db) : Db × Budget :=
  let db := db.materialise cand.dataset_urn cand.item_id
  let row := newRow conf cand evidence run_id db.candidates
  if nonRejectedCount conf cand.dataset_urn cand.item_id db.candidates < conf.result_limit then
    ({ db with candidates := db.candidates.put row },⟨true,false⟩)
  else if !conf.overwrite_pending then (db,⟨false,false⟩)
  else match oldest conf cand.dataset_urn cand.item_id db.candidates with
  | none => (db,⟨false,false⟩)
  | some old =>
    let kept := db.candidates.remove fun c => c.candidate_id = old.candidate_id
    ({ db with candidates := kept.put row },⟨true,true⟩)

/-- The budget lets a new candidate of the item in. -/
def HasRoom (cand : MetagenLLMCandidate) (candidates : Table MetagenCandidate.candidate_id) :
    Prop :=
  nonRejectedCount conf cand.dataset_urn cand.item_id candidates < conf.result_limit ∨
    conf.overwrite_pending = true ∧
      (oldest conf cand.dataset_urn cand.item_id candidates).isSome

end Budget

section Spec

variable {conf : MetagenConf} {cand : MetagenLLMCandidate} {evidence : Transcript}
  {run_id : Str} {db : Db}

theorem lt_uuid4 {candidates : Table MetagenCandidate.candidate_id} {r : MetagenCandidate}
    (hr : r ∈ candidates.rows) : r.candidate_id < uuid4 candidates := by
  unfold uuid4
  generalize candidates.rows = rows at hr
  induction rows with
  | nil => cases hr
  | cons x xs ih =>
    rw [List.map_cons,List.foldr_cons]
    rcases List.mem_cons.mp hr with rfl | hr
    · omega
    · have := ih hr
      omega

theorem materialise_candidates (db : Db) (urn item_id : Str) :
    (db.materialise urn item_id).candidates = db.candidates := by
  unfold Db.materialise
  split <;> rfl

/-- The row a candidate is written to. -/
def RowOf (conf : MetagenConf) (run_id : Str) (cand : MetagenLLMCandidate)
    (row : MetagenCandidate) : Prop :=
  row.conf_id = some conf.id ∧ row.run_id = run_id ∧ row.dataset_urn = cand.dataset_urn ∧
    row.item_id = cand.item_id ∧ row.value = cand.value ∧
    row.confidence_score = cand.confidence_score ∧ row.status = .llm_approved

/-- What the budget does: nothing to the candidates without room, and with room a new row
under a new id. -/
theorem apply_per_item_budget_spec (conf : MetagenConf) (cand : MetagenLLMCandidate)
    (evidence : Transcript) (run_id : Str) (db : Db) :
    (¬ HasRoom conf cand db.candidates →
      (apply_per_item_budget conf cand evidence run_id db).1.candidates = db.candidates) ∧
    (HasRoom conf cand db.candidates →
      newRow conf cand evidence run_id db.candidates ∈
        (apply_per_item_budget conf cand evidence run_id db).1.candidates.rows ∧
      ∀ r ∈ (apply_per_item_budget conf cand evidence run_id db).1.candidates.rows,
        r = newRow conf cand evidence run_id db.candidates ∨ r ∈ db.candidates.rows) := by
  have hmat := materialise_candidates db cand.dataset_urn cand.item_id
  unfold apply_per_item_budget HasRoom
  dsimp only
  rw [hmat]
  split
  · rename_i hlt
    refine ⟨fun h => absurd (.inl hlt) h,fun _ => ⟨?_,?_⟩⟩
    · exact Table.mem_put.mpr (.inl rfl)
    · exact fun r hr => (Table.mem_put.mp hr).imp_right And.left
  rename_i hfull
  split
  · rename_i hpending
    exact ⟨fun _ => hmat,fun h => by simp [hfull] at h; simp [h.1] at hpending⟩
  split
  · rename_i hnone
    exact ⟨fun _ => hmat,fun h => by simp [hfull,hnone] at h⟩
  · rename_i hpending _ old hold
    refine ⟨fun h => absurd (.inr ⟨by simpa using hpending,by simp [hold]⟩) h,
      fun _ => ⟨?_,?_⟩⟩
    · exact Table.mem_put.mpr (.inl rfl)
    · exact fun r hr => (Table.mem_put.mp hr).imp_right fun h => (Table.mem_remove.mp h.1).1

/-- The candidates of a payload, in order. -/
def applyBudgets (conf : MetagenConf) (evidence : Transcript) (run_id : Str)
    (cands : List MetagenLLMCandidate) (db : Db) : Db :=
  cands.foldl (fun db cand => (apply_per_item_budget conf cand evidence run_id db).1) db

/-- Rows with larger ids than the first tables had are there once a candidate got in. -/
theorem applyBudgets_newer {cands : List MetagenLLMCandidate} {bound : ℕ}
    (h : ∃ r ∈ db.candidates.rows, bound ≤ r.candidate_id) :
    ∃ r ∈ (applyBudgets conf evidence run_id cands db).candidates.rows,
      bound ≤ r.candidate_id := by
  induction cands generalizing db with
  | nil => exact h
  | cons cand cands ih =>
    refine ih ?_
    obtain ⟨hfull,hroom⟩ := apply_per_item_budget_spec conf cand evidence run_id db
    by_cases hr : HasRoom conf cand db.candidates
    · obtain ⟨r,hmem,hle⟩ := h
      exact ⟨_,(hroom hr).1,hle.trans (lt_uuid4 hmem).le⟩
    · rw [hfull hr]
      exact h

theorem applyBudgets_spec (conf : MetagenConf) (evidence : Transcript) (run_id : Str)
    (cands : List MetagenLLMCandidate) (db : Db) :
    (∀ r ∈ (applyBudgets conf evidence run_id cands db).candidates.rows,
      r ∈ db.candidates.rows ∨ ∃ cand ∈ cands, RowOf conf run_id cand r) ∧
    ((∃ cand ∈ cands, HasRoom conf cand db.candidates) →
      ∃ r ∈ (applyBudgets conf evidence run_id cands db).candidates.rows,
        r ∉ db.candidates.rows) ∧
    ((∀ cand ∈ cands, ¬ HasRoom conf cand db.candidates) →
      (applyBudgets conf evidence run_id cands db).candidates = db.candidates) := by
  induction cands generalizing db with
  | nil => exact ⟨fun r hr => .inl hr,by simp,fun _ => rfl⟩
  | cons cand cands ih =>
    let db₁ := (apply_per_item_budget conf cand evidence run_id db).1
    obtain ⟨hrows,hnew,hsame⟩ := ih db₁
    obtain ⟨hfull,hroom⟩ := apply_per_item_budget_spec conf cand evidence run_id db
    by_cases hcan : HasRoom conf cand db.candidates
    · obtain ⟨hmem,hold⟩ := hroom hcan
      refine ⟨fun r hr => ?_,fun _ => ?_,fun h => absurd hcan (h cand (by simp))⟩
      · rcases hrows r hr with hr | ⟨c,hc,hrc⟩
        · rcases hold r hr with rfl | hr
          · exact .inr ⟨cand,by simp,rfl,rfl,rfl,rfl,rfl,rfl,rfl⟩
          · exact .inl hr
        · exact .inr ⟨c,by simp [hc],hrc⟩
      · obtain ⟨r,hr,hle⟩ : ∃ r ∈ (applyBudgets conf evidence run_id cands db₁).candidates.rows,
            uuid4 db.candidates ≤ r.candidate_id := applyBudgets_newer ⟨_,hmem,le_rfl⟩
        exact ⟨r,hr,fun hmem => absurd (lt_uuid4 hmem) (not_lt.mpr hle)⟩
    · have heq := hfull hcan
      rw [heq] at hrows hnew hsame
      refine ⟨fun r hr => (hrows r hr).imp_right fun ⟨c,hc,hrc⟩ => ⟨c,by simp [hc],hrc⟩,?_,?_⟩
      · rintro ⟨c,hmem,hc⟩
        rcases List.mem_cons.mp hmem with rfl | hmem
        · exact absurd hc hcan
        · exact hnew ⟨c,hmem,hc⟩
      · exact fun h => hsame fun c hc => h c (by simp [hc])

end Spec

end Metagen
end Dataspoke
