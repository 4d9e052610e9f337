import Dataspoke.SourceOwnership
import Dataspoke.SweepAgain

/-!
# The evidence behind a mapping

What the runs and the sweeps have recorded of a pair and not withdrawn, beside the derivation
that its row stores. The two agree until a run emits a dataset that is stored with a weaker
derivation: its upsert leaves that derivation.
-/

namespace Dataspoke
namespace Ingestion

open Python Transition

/-- `_DERIVATION_PRIORITY`. -/
def Derivation.priority : Derivation → ℕ
  | .emitted => 0
  | .pipeline_name => 1
  | .matched => 2

/-- What a run of the pipeline comes to. -/
structure IngestionRun where
  now : ℕ
  source_id : ℕ
  dry_run : Bool
  errors : List Str
  emitted_urns : List Str

/-- Whether the run comes to the record of its datasets. -/
def IngestionRun.records (sources : Sources) (run : IngestionRun) : Bool :=
  (sources.table.get? run.source_id).any (·.mode = .ACTIVE_CUSTOM_MANAGED) &&
    !run.dry_run && run.errors.isEmpty && !run.emitted_urns.isEmpty

/-- The conflict clause of `_upsert_dataset_mappings`. -/
def touch (now : ℕ) (row : IngestionSourceDataset) : Option IngestionSourceDataset :=
  some { row with last_seen_at := now }

/-- `_upsert_dataset_mappings`. -/
def upsert_dataset_mappings (now source_id : ℕ) (dataset_urns : List Str)
    (derivation : Derivation) (mappings : Mappings) : Mappings :=
  (Table.upserts (newMapping now derivation) (touch now) (fun _ => false)
    (dataset_urns.map (source_id,·)) (mappings,0)).1

section Evidence

/-- The evidence for a pair that was recorded and is not withdrawn. -/
structure Evidence where
  emitted : Bool
  pipeline_name : Bool
  matched : Bool

namespace Evidence

def has (e : Evidence) : Derivation → Bool
  | .emitted => e.emitted
  | .pipeline_name => e.pipeline_name
  | .matched => e.matched

def cleared : Evidence := ⟨false,false,false⟩

/-- No evidence comes before that of the derivation. -/
def Strongest (e : Evidence) (d : Derivation) : Prop :=
  e.has d = true ∧ ∀ d', e.has d' = true → d.priority ≤ d'.priority

def strongest (e : Evidence) : Option Derivation :=
  if e.emitted then some .emitted
  else if e.pipeline_name then some .pipeline_name
  else if e.matched then some .matched
  else none

theorem strongest_iff {e : Evidence} {d : Derivation} : e.strongest = some d ↔ e.Strongest d := by
  have hall : (∀ d', e.has d' = true → d.priority ≤ d'.priority) ↔
      (e.emitted = true → d.priority ≤ 0) ∧ (e.pipeline_name = true → d.priority ≤ 1) ∧
        (e.matched = true → d.priority ≤ 2) :=
    ⟨fun h => ⟨h .emitted,h .pipeline_name,h .matched⟩,
      fun h d' hd' => by
        cases d' with
        | emitted => exact h.1 hd'
        | pipeline_name => exact h.2.1 hd'
        | matched => exact h.2.2 hd'⟩
  rw [Strongest,hall]
  obtain ⟨a,b,c⟩ := e
  cases d <;> cases a <;> cases b <;> cases c <;> simp [strongest,has,Derivation.priority]

end Evidence

/-- The evidence for every pair. -/
abbrev EvidenceOf := ℕ × Str → Evidence

variable (env : Runtime) (now : ℕ) (estate : Estate)

def removed (before after : Sources) (id : ℕ) : Bool :=
  before.rows.any (·.id = id) && !after.rows.any (·.id = id)

/-- A source that is gone takes its evidence with it. -/
def withdrawRemoved (before after : Sources) (evidence : EvidenceOf) : EvidenceOf := fun k =>
  if removed before after k.1 then .cleared else evidence k

/-- Patterns that are evaluated record what they match and withdraw the rest. -/
def recordMatched (urns : List Str) (sources : Sources) (evidence : EvidenceOf) : EvidenceOf :=
  fun k =>
    match sources.table.get? k.1 with
    | none => evidence k
    | some src =>
      let e := evaluate env urns src.recipe
      if e.2 then evidence k else { evidence k with matched := k.2 ∈ e.1 }

def recordLinks (sources : List SweepSource) (pipeline_map : List (Str × Option Str))
    (evidence : EvidenceOf) : EvidenceOf := fun k =>
  if k ∈ linkedPairs env sources pipeline_map then { evidence k with pipeline_name := true }
  else evidence k

def recordEmitted (run : IngestionRun) (evidence : EvidenceOf) : EvidenceOf := fun k =>
  if k.1 = run.source_id ∧ k.2 ∈ run.emitted_urns then { evidence k with emitted := true }
  else evidence k

/-- What the steps of a sweep record and withdraw, as far as it comes. -/
def sweepEvidence (db : Db) (evidence : EvidenceOf) : EvidenceOf :=
  match stepSources env now estate db with
  | (after,.error _) => withdrawRemoved db.sources after.sources evidence
  | (after,.ok _) =>
    let evidence := withdrawRemoved db.sources after.sources evidence
    match estate.datasets with
    | none => evidence
    | some urns =>
      let evidence := recordMatched env urns after.sources evidence
      if urns.isEmpty then evidence
      else
        match estate.pipelines with
        | none => evidence
        | some pipeline_map => recordLinks env after.sources.snapshot pipeline_map evidence

end Evidence

/-- The tables, and the evidence for their mappings. -/
structure Ledger where
  db : Db
  evidence : EvidenceOf

inductive MappingCall
  | run (run : IngestionRun)
  | sweep (env : Runtime) (now : ℕ) (estate : Estate)

def Ledger.apply (w : Ledger) : MappingCall → Ledger
  | .run run =>
    if run.records w.db.sources then
      let mappings := upsert_dataset_mappings run.now run.source_id run.emitted_urns
        Derivation.emitted w.db.mappings
      ⟨{ w.db with mappings := mappings },recordEmitted run w.evidence⟩
    else w
  | .sweep env now estate =>
    ⟨(run_sweep env now estate w.db).1,sweepEvidence env now estate w.db w.evidence⟩

def mappingSystem : System Ledger MappingCall :=
  ofFun (fun _ => True) fun w call => some (w.apply call)

def derivation? (mappings : Mappings) (k : ℕ × Str) : Option Derivation :=
  (mappings.get? k).map (·.derivation)

/-- Every pair is stored with its strongest evidence, and a pair without evidence is not. -/
def Precedence (w : Ledger) : Prop :=
  ∀ k d, derivation? w.db.mappings k = some d ↔ (w.evidence k).Strongest d

/-- The step leaves no pair with a weaker derivation. -/
def NeverDemotes (w : Ledger) (call : MappingCall) : Prop :=
  ∀ k d d', derivation? w.db.mappings k = some d →
    derivation? (w.apply call).db.mappings k = some d' → d'.priority ≤ d.priority

/-- A sweep leaves every pair that a run has emitted. -/
def NeverPrunes (w : Ledger) : MappingCall → Prop
  | .run _ => True
  | .sweep env now estate => ∀ k, (w.evidence k).emitted = true →
    derivation? (w.apply (.sweep env now estate)).db.mappings k ≠ none

/-- A run emits no dataset that its source has with a weaker derivation. -/
def EmitsFirst (w : Ledger) : MappingCall → Prop
  | .run run => run.records w.db.sources = true → ∀ urn ∈ run.emitted_urns, ∀ d,
    derivation? w.db.mappings (run.source_id,urn) = some d → d = .emitted
  | .sweep _ _ _ => True

/-- The tables and the evidence agree, and what was emitted is of a source with runs. -/
structure Ledger.Consistent (w : Ledger) : Prop where
  precedence : Precedence w
  emitted : ∀ k, (w.evidence k).emitted = true →
    ∃ src ∈ w.db.sources.rows, src.id = k.1 ∧ src.mode = .ACTIVE_CUSTOM_MANAGED

/-- The stored derivation of every pair is that of its strongest evidence. -/
def Backed (mappings : Mappings) (evidence : EvidenceOf) : Prop :=
  ∀ k, derivation? mappings k = (evidence k).strongest

theorem precedence_iff {w : Ledger} : Precedence w ↔ Backed w.db.mappings w.evidence := by
  simp only [Precedence,← Evidence.strongest_iff]
  exact forall_congr' fun k => Option.ext_iff.symm

section Tables

variable {env : Runtime} {now : ℕ} {estate : Estate} {mappings : Mappings} {evidence : EvidenceOf}

theorem derivation?_cascade (before after : Sources) (k : ℕ × Str) :
    derivation? (cascadeMappings before after mappings) k =
      if removed before after k.1 then none else derivation? mappings k := by
  rw [derivation?,derivation?,cascadeMappings,Table.get?_remove]
  cases hrow : mappings.get? k with
  | none => simp
  | some row =>
    have hid : row.source_id = k.1 := congrArg Prod.fst (Table.get?_eq_some.mp hrow).2
    rw [Option.filter_some,hid,← removed]
    cases removed before after k.1 <;> rfl

theorem Backed.cascade (h : Backed mappings evidence) (before after : Sources) :
    Backed (cascadeMappings before after mappings) (withdrawRemoved before after evidence) := by
  intro k
  rw [derivation?_cascade,withdrawRemoved]
  cases removed before after k.1
  · exact h k
  · rfl

/-- The round of a source, on the evidence for one of its pairs. -/
theorem reconciled_derivation {k : ℕ × Str} {e : List Str × Bool} (hd : e.2 = true → e.1 = [])
    {old : Option IngestionSourceDataset} {ev : Evidence}
    (h : old.map (·.derivation) = ev.strongest) :
    (reconciled now k e old).map (·.derivation) =
      (if e.2 then ev else { ev with matched := k.2 ∈ e.1 }).strongest := by
  obtain ⟨us,degraded⟩ := e
  obtain ⟨a,b,c⟩ := ev
  cases degraded with
  | true =>
    obtain rfl : us = [] := hd rfl
    cases old with
    | none => simpa [reconciled] using h
    | some row => by_cases hm : row.derivation = .matched <;> simpa [reconciled,hm] using h
  | false =>
    cases old with
    | none =>
      by_cases hin : k.2 ∈ us <;> cases a <;> cases b <;> cases c <;>
        simp [reconciled,hin,Evidence.strongest,newMapping] at h ⊢
    | some row =>
      by_cases hin : k.2 ∈ us <;> cases hm : row.derivation <;> cases a <;> cases b <;> cases c <;>
        simp [reconciled,hm,hin,Evidence.strongest] at h ⊢

theorem Backed.sweepMappings (h : Backed mappings evidence) (urns : List Str)
    (sources : Sources) : Backed (sweepMappings env now urns sources.snapshot mappings).1
      (recordMatched env urns sources evidence) := by
  intro k
  rw [derivation?,recordMatched]
  cases hsrc : sources.table.get? k.1 with
  | none =>
    have hno : k.1 ∉ sources.rows.map IngestionSource.id := by
      intro hin
      obtain ⟨src,hmem,hid⟩ := List.mem_map.mp hin
      exact Table.get?_eq_none.mp hsrc src hmem hid
    rw [sweepMappings_of_not_mem hno]
    exact h k
  | some src =>
    obtain ⟨hmem,hid⟩ := Table.get?_eq_some.mp hsrc
    rw [sweepMappings_of_mem hmem hid.symm]
    exact reconciled_derivation evaluate_fst_of_degraded (h k)

theorem Backed.linkPipelines (h : Backed mappings evidence) (snapshot : List SweepSource)
    (pipeline_map : List (Str × Option Str)) :
    Backed (linkPipelines env now snapshot pipeline_map mappings).1
      (recordLinks env snapshot pipeline_map evidence) := by
  intro k
  have hk := h k
  rw [derivation?] at hk ⊢
  rw [linkPipelines_get?,recordLinks]
  by_cases hin : k ∈ linkedPairs env snapshot pipeline_map
  · rw [if_pos hin,if_pos hin]
    generalize evidence k = ev at hk ⊢
    generalize mappings.get? k = old at hk ⊢
    obtain ⟨a,b,c⟩ := ev
    cases old with
    | none =>
      cases a <;> cases b <;> cases c <;>
        simp [Evidence.strongest,Table.merged,newMapping] at hk ⊢
    | some row =>
      cases hd : row.derivation <;> cases a <;> cases b <;> cases c <;>
        simp [hd,Evidence.strongest,Table.merged,promote] at hk ⊢
  · rw [if_neg hin,if_neg hin]
    exact hk

end Tables

section Emit

variable {now : ℕ} {mappings : Mappings} {evidence : EvidenceOf}

theorem touch_key (r r' : IngestionSourceDataset) (h : touch now r = some r') : r'.key = r.key := by
  cases h
  rfl

theorem touch_idem (derivation : Derivation) (k : ℕ × Str) (o : Option IngestionSourceDataset) :
    Table.merged (newMapping now derivation k) (touch now)
      (some (Table.merged (newMapping now derivation k) (touch now) o)) =
    Table.merged (newMapping now derivation k) (touch now) o := by
  cases o <;> rfl

/-- The upsert of a run keeps the derivation that is stored. -/
theorem derivation?_upsert (id : ℕ) (urns : List Str) (d : Derivation) (k : ℕ × Str) :
    derivation? (upsert_dataset_mappings now id urns d mappings) k =
      if k.1 = id ∧ k.2 ∈ urns then some ((derivation? mappings k).getD d)
      else derivation? mappings k := by
  rw [derivation?,derivation?,upsert_dataset_mappings,
    Table.get?_upserts (fun _ => rfl) touch_key (touch_idem d)]
  by_cases hk : k.1 = id ∧ k.2 ∈ urns
  · rw [if_pos hk,if_pos (mem_map_pair.mpr hk)]
    cases mappings.get? k <;> rfl
  · rw [if_neg hk,if_neg (mt mem_map_pair.mp hk)]

/-- When a run that records keeps the tables and the evidence in agreement. -/
theorem Backed.emit_iff (h : Backed mappings evidence) (run : IngestionRun) :
    Backed (upsert_dataset_mappings run.now run.source_id run.emitted_urns .emitted mappings)
        (recordEmitted run evidence) ↔
      ∀ urn ∈ run.emitted_urns, ∀ d, derivation? mappings (run.source_id,urn) = some d →
        d = .emitted := by
  have hstep : ∀ k, derivation? (upsert_dataset_mappings run.now run.source_id run.emitted_urns
        .emitted mappings) k = (recordEmitted run evidence k).strongest ↔
      (k.1 = run.source_id ∧ k.2 ∈ run.emitted_urns → ∀ d, derivation? mappings k = some d →
        d = .emitted) := by
    intro k
    rw [derivation?_upsert,recordEmitted]
    by_cases hk : k.1 = run.source_id ∧ k.2 ∈ run.emitted_urns
    · rw [if_pos hk,if_pos hk]
      cases derivation? mappings k <;> simp [Evidence.strongest,hk]
    · rw [if_neg hk,if_neg hk]
      exact iff_of_true (h k) fun hin => absurd hin hk
  rw [Backed,forall_congr' hstep]
  constructor
  · exact fun hall urn hurn d hd => hall (run.source_id,urn) ⟨rfl,hurn⟩ d hd
  · rintro hall ⟨id,urn⟩ ⟨hid,hurn⟩ d hd
    obtain rfl : id = run.source_id := hid
    exact hall urn hurn d hd

end Emit

section Sweep

variable {env : Runtime} {now : ℕ} {estate : Estate} {db : Db} {evidence : EvidenceOf}

theorem Backed.stepSources (h : Backed db.mappings evidence) :
    Backed (stepSources env now estate db).1.mappings
      (withdrawRemoved db.sources (stepSources env now estate db).1.sources evidence) := by
  rw [Ingestion.stepSources]
  split
  · intro k
    rw [withdrawRemoved,removed,Bool.and_not_self]
    exact h k
  · exact h.cascade _ _

theorem Backed.sweepTables (h : Backed db.mappings evidence) :
    Backed (sweepTables env now estate db).1.mappings
      (sweepEvidence env now estate db evidence) := by
  have hs := @Backed.stepSources env now estate db evidence h
  rw [Ingestion.sweepTables,sweepEvidence]
  generalize Ingestion.stepSources env now estate db = r at hs ⊢
  obtain ⟨after,e | c⟩ := r
  · exact hs
  · cases estate.datasets with
    | none => exact hs
    | some urns =>
      have hm := @Backed.sweepMappings env now _ _ hs urns after.sources
      dsimp only
      rw [stepLinks]
      by_cases hu : urns.isEmpty = true
      · rw [if_pos hu,if_pos hu]
        exact hm
      · rw [if_neg hu,if_neg hu]
        cases estate.pipelines with
        | none => exact hm
        | some pipeline_map => exact hm.linkPipelines after.sources.snapshot pipeline_map

theorem sweepTables_sources :
    (sweepTables env now estate db).1.sources = (stepSources env now estate db).1.sources := by
  rw [sweepTables]
  generalize stepSources env now estate db = r
  obtain ⟨after,e | c⟩ := r
  · rfl
  · cases estate.datasets with
    | none => rfl
    | some urns =>
      have hlinks := (@stepLinks_frame env now estate (stepDatasets env now estate urns after).1
        urns).1
      dsimp only
      generalize stepLinks env now estate urns (stepDatasets env now estate urns after).1 = l
        at hlinks ⊢
      obtain ⟨d,_ | n⟩ := l <;> exact hlinks

theorem run_sweep_frame :
    (run_sweep env now estate db).1.sources = (sweepTables env now estate db).1.sources ∧
      (run_sweep env now estate db).1.mappings = (sweepTables env now estate db).1.mappings := by
  rw [run_sweep]
  generalize sweepTables env now estate db = r
  obtain ⟨after,e | c⟩ := r
  · exact ⟨rfl,rfl⟩
  · have hevents : (stepEvents now estate after).1.sources = after.sources ∧
        (stepEvents now estate after).1.mappings = after.mappings := ⟨rfl,rfl⟩
    dsimp only
    generalize stepEvents now estate after = l at hevents ⊢
    obtain ⟨d,_ | n⟩ := l <;> exact hevents

theorem run_sweep_users {row : IngestionSource} (hm : row.mode ≠ .DATAHUB_MANAGED) :
    row ∈ (run_sweep env now estate db).1.sources.rows ↔ row ∈ db.sources.rows := by
  rw [run_sweep_frame.1,sweepTables_sources,stepSources]
  split
  · rfl
  · exact (sweepSources_effect _).users row hm

end Sweep

section Kept

variable {env : Runtime} {now : ℕ} {estate : Estate} {db : Db} {evidence : EvidenceOf}
  {k : ℕ × Str}

/-- What no sweep withdraws from a pair whose source stays. -/
structure Kept (e e' : Evidence) : Prop where
  emitted : e'.emitted = e.emitted
  pipeline_name : e.pipeline_name = true → e'.pipeline_name = true

theorem Kept.refl (e : Evidence) : Kept e e := ⟨rfl,id⟩

theorem Kept.trans {e e' e'' : Evidence} (h : Kept e e') (h' : Kept e' e'') : Kept e e'' :=
  ⟨h'.emitted.trans h.emitted,fun hp => h'.pipeline_name (h.pipeline_name hp)⟩

theorem recordMatched_kept (urns : List Str) (sources : Sources) :
    Kept (evidence k) (recordMatched env urns sources evidence k) := by
  rw [recordMatched]
  split
  · exact .refl _
  · dsimp only
    split
    · exact .refl _
    · exact ⟨rfl,id⟩

theorem recordLinks_kept (snapshot : List SweepSource) (pipeline_map : List (Str × Option Str)) :
    Kept (evidence k) (recordLinks env snapshot pipeline_map evidence k) := by
  rw [recordLinks]
  split
  · exact ⟨rfl,fun _ => rfl⟩
  · exact .refl _

theorem recordMatched_of_not_mem {sources : Sources} (hno : ∀ src ∈ sources.rows, src.id ≠ k.1)
    (urns : List Str) : recordMatched env urns sources evidence k = evidence k := by
  rw [recordMatched,Table.get?_eq_none.mpr hno]

theorem recordLinks_of_not_mem {sources : Sources} (hno : ∀ src ∈ sources.rows, src.id ≠ k.1)
    (pipeline_map : List (Str × Option Str)) :
    recordLinks env sources.snapshot pipeline_map evidence k = evidence k := by
  rw [recordLinks]
  refine if_neg fun hin => ?_
  obtain ⟨src,hsrc,hid,-⟩ := pipelineOf_of_mem hin
  obtain ⟨row,hrow,rfl⟩ := Sources.mem_snapshot.mp hsrc
  exact hno row hrow hid

/-- What a sweep makes of the evidence for a pair. -/
theorem sweepEvidence_cases (env : Runtime) (now : ℕ) (estate : Estate) (db : Db)
    (evidence : EvidenceOf) (k : ℕ × Str) :
    removed db.sources (stepSources env now estate db).1.sources k.1 = true ∧
        sweepEvidence env now estate db evidence k = .cleared ∨
      removed db.sources (stepSources env now estate db).1.sources k.1 = false ∧
        Kept (evidence k) (sweepEvidence env now estate db evidence k) := by
  rw [sweepEvidence]
  generalize stepSources env now estate db = r
  obtain ⟨after,res⟩ := r
  cases hr : removed db.sources after.sources k.1 with
  | true =>
    have hw : withdrawRemoved db.sources after.sources evidence k = .cleared := if_pos hr
    have hno : ∀ src ∈ after.sources.rows, src.id ≠ k.1 := by
      rw [removed,Bool.and_eq_true] at hr
      simpa using hr.2
    refine .inl ⟨rfl,?_⟩
    cases res with
    | error e => exact hw
    | ok c =>
      cases estate.datasets with
      | none => exact hw
      | some urns =>
        have hm := (@recordMatched_of_not_mem env _ k _ hno urns).trans hw
        by_cases hu : urns.isEmpty = true
        · simpa only [if_pos hu] using hm
        · simp only [if_neg hu]
          cases estate.pipelines with
          | none => exact hm
          | some pipeline_map => exact (recordLinks_of_not_mem hno pipeline_map).trans hm
  | false =>
    have hw : withdrawRemoved db.sources after.sources evidence k = evidence k :=
      if_neg (by simp [hr])
    have hkept : Kept (evidence k) (withdrawRemoved db.sources after.sources evidence k) := by
      rw [hw]
      exact .refl _
    refine .inr ⟨rfl,?_⟩
    cases res with
    | error e => exact hkept
    | ok c =>
      cases estate.datasets with
      | none => exact hkept
      | some urns =>
        have hm := hkept.trans (@recordMatched_kept env _ k urns after.sources)
        by_cases hu : urns.isEmpty = true
        · simpa only [if_pos hu] using hm
        · simp only [if_neg hu]
          cases estate.pipelines with
          | none => exact hm
          | some pipeline_map => exact hm.trans (recordLinks_kept _ pipeline_map)

end Kept

section Law

variable {w : Ledger} {env : Runtime} {now : ℕ} {estate : Estate}

/-- The source of a pair that was emitted survives every sweep. -/
theorem Ledger.Consistent.not_removed (hc : w.Consistent) {k : ℕ × Str}
    (he : (w.evidence k).emitted = true) :
    removed w.db.sources (stepSources env now estate w.db).1.sources k.1 = false := by
  obtain ⟨src,hsrc,hid,hmode⟩ := hc.emitted k he
  have hsrc' : src ∈ (stepSources env now estate w.db).1.sources.rows := by
    rw [← sweepTables_sources,← run_sweep_frame.1]
    exact (run_sweep_users (by simp [hmode])).mpr hsrc
  rw [removed,Bool.and_eq_false_iff]
  right
  rw [Bool.not_eq_false',List.any_eq_true]
  exact ⟨src,hsrc',decide_eq_true hid⟩

theorem Ledger.Consistent.sweep (hc : w.Consistent) :
    (w.apply (.sweep env now estate)).Consistent := by
  constructor
  case precedence =>
    rw [precedence_iff]
    show Backed (run_sweep env now estate w.db).1.mappings _
    rw [run_sweep_frame.2]
    exact (precedence_iff.mp hc.precedence).sweepTables
  case emitted =>
    intro k he
    rcases sweepEvidence_cases env now estate w.db w.evidence k with ⟨-,h⟩ | ⟨-,h⟩
    · have hcleared : (sweepEvidence env now estate w.db w.evidence k).emitted = true := he
      rw [h] at hcleared
      cases hcleared
    · obtain ⟨src,hsrc,hid,hmode⟩ := hc.emitted k (h.emitted ▸ he)
      exact ⟨src,(run_sweep_users (by simp [hmode])).mpr hsrc,hid,hmode⟩

/-- A run keeps the ledger consistent just where it emits first. -/
theorem Ledger.Consistent.run (hc : w.Consistent) {run : IngestionRun}
    (hg : EmitsFirst w (.run run)) : (w.apply (.run run)).Consistent := by
  rw [Ledger.apply]
  by_cases hr : run.records w.db.sources = true
  · rw [if_pos hr]
    constructor
    case precedence =>
      rw [precedence_iff]
      exact ((precedence_iff.mp hc.precedence).emit_iff run).mpr (hg hr)
    case emitted =>
      intro k he
      by_cases hk : k.1 = run.source_id ∧ k.2 ∈ run.emitted_urns
      · simp only [IngestionRun.records,Bool.and_eq_true,Option.any_eq_true] at hr
        obtain ⟨⟨⟨⟨src,hsrc,hmode⟩,-⟩,-⟩,-⟩ := hr
        obtain ⟨hmem,hid⟩ := Table.get?_eq_some.mp hsrc
        exact ⟨src,hmem,hid.trans hk.1.symm,of_decide_eq_true hmode⟩
      · simp only [recordEmitted,if_neg hk] at he
        exact hc.emitted k he
  · rw [if_neg hr]
    exact hc

theorem not_precedence (hc : w.Consistent) {call : MappingCall} (hg : ¬ EmitsFirst w call) :
    ¬ Precedence (w.apply call) := by
  cases call with
  | sweep => exact absurd trivial hg
  | run run =>
    rw [EmitsFirst,Classical.not_imp] at hg
    rw [Ledger.apply,if_pos hg.1,precedence_iff]
    exact mt ((precedence_iff.mp hc.precedence).emit_iff run).mp hg.2

theorem Ledger.Consistent.neverDemotes (hc : w.Consistent) (call : MappingCall) :
    NeverDemotes w call := by
  intro k d d' hd hd'
  cases call with
  | run run =>
    rw [Ledger.apply] at hd'
    split at hd'
    · rw [derivation?_upsert,hd] at hd'
      split at hd' <;> rw [← Option.some.inj hd']
      rfl
    · rw [hd] at hd'
      rw [Option.some.inj hd']
  | sweep env now estate =>
    have hs := (hc.precedence k d).mp hd
    have hs' := (hc.sweep.precedence k d').mp hd'
    rcases sweepEvidence_cases env now estate w.db w.evidence k with ⟨-,h⟩ | ⟨-,h⟩
    · have hcleared : (sweepEvidence env now estate w.db w.evidence k).has d' = true := hs'.1
      rw [h] at hcleared
      cases d' <;> cases hcleared
    · cases d with
      | emitted => exact hs'.2 .emitted (h.emitted.trans hs.1)
      | pipeline_name => exact hs'.2 .pipeline_name (h.pipeline_name hs.1)
      | matched => cases d' <;> simp [Derivation.priority]

theorem Ledger.Consistent.neverPrunes (hc : w.Consistent) (call : MappingCall) :
    NeverPrunes w call := by
  cases call with
  | run => trivial
  | sweep env now estate =>
    intro k he hnone
    have hkept : Kept (w.evidence k) (sweepEvidence env now estate w.db w.evidence k) := by
      rcases sweepEvidence_cases env now estate w.db w.evidence k with ⟨h,-⟩ | ⟨-,h⟩
      · rw [hc.not_removed he] at h
        cases h
      · exact h
    have hstrongest : (w.apply (.sweep env now estate)).evidence k |>.Strongest .emitted :=
      ⟨hkept.emitted.trans he,fun d' _ => Nat.zero_le _⟩
    rw [(hc.sweep.precedence k .emitted).mpr hstrongest] at hnone
    cases hnone

/-- Over any runs and sweeps, every pair is stored with its strongest evidence, none is demoted
and none that was emitted is pruned, just where no run emits a dataset that its source has with
a weaker derivation. -/
theorem derivation_precedence {w w' : Ledger} {h : List (Ledger × MappingCall)}
    (hr : Run mappingSystem w h w') (hi : w.Consistent) :
    (Visits Precedence h w' ∧ Meets NeverDemotes h ∧ Meets NeverPrunes h) ↔
      Meets EmitsFirst h := by
  have hstep : ∀ w call w', w.Consistent → EmitsFirst w call → mappingSystem.step w call w' →
      w'.Consistent := by
    rintro w call _ hc hg ⟨⟩
    cases call with
    | run run => exact hc.run hg
    | sweep env now estate => exact hc.sweep
  have hiff : Visits Precedence h w' ↔ Meets EmitsFirst h := by
    refine hr.visits_iff_meets hi (fun _ hc => hc.precedence) hstep ?_
    rintro w call _ hc hg ⟨⟩
    exact not_precedence hc hg
  refine ⟨fun hall => hiff.mp hall.1,fun hg => ?_⟩
  have hc := hr.visits hi hstep hg
  exact ⟨hiff.mpr hg,fun p hp => (hc.2 p hp).neverDemotes p.2,
    fun p hp => (hc.2 p hp).neverPrunes p.2⟩

def sampleTable : Str := "urn:li:dataset:(urn:li:dataPlatform:postgres,db.public.t,PROD)".toList

def tablesRecipe : Items :=
  [(sourceKey,.obj [(typeKey,.str "postgres".toList),(configKey,.obj [(tablePatternKey,.obj [])])])]

def matchingRuntime : Runtime := { recipeRuntime with
  re_compile := fun _ => true
  allowDenyPattern := some fun _ _ => some fun _ => some true }

def tablesSource (id : ℕ) : IngestionSource :=
  ⟨id,.ACTIVE_CUSTOM_MANAGED,"pg".toList,"postgres".toList,tablesRecipe,none,none,none,none,
    "OK".toList,0,0⟩

def sampleLedger : Ledger :=
  ⟨{ emptyDb with sources := noSources.insert tablesSource (fun _ => rfl) fun _ h => absurd rfl h },
    fun _ => .cleared⟩

theorem sampleLedger_consistent : sampleLedger.Consistent := by
  constructor
  case precedence => exact precedence_iff.mpr fun _ => rfl
  case emitted => exact fun _ he => nomatch he

def tablesEstate : Estate :=
  ⟨some [],some [sampleTable],none,some [],⟨fun _ => some [],fun _ _ => none,.failed⟩⟩

def tablesRun : IngestionRun := ⟨5,0,false,[],[sampleTable]⟩

theorem derivation_precedence_sample : ∃ h w', Run mappingSystem sampleLedger h w' ∧
    (Visits Precedence h w' ∧ Meets NeverDemotes h ∧ Meets NeverPrunes h) ∧ h.length = 2 := by
  have hr := run_of_replay (i:=fun _ => True) (f:=fun w call => some (w.apply call))
    (l:=[.run tablesRun,.sweep matchingRuntime 7 tablesEstate]) (.refl (s:=sampleLedger)) rfl
  refine ⟨_,_,hr,(derivation_precedence hr sampleLedger_consistent).mpr ?_,rfl⟩
  simp only [meets_cons,meets_nil,and_true]
  exact ⟨trivial,fun _ _ _ _ hd => by cases hd⟩

/-- A sweep stores a matched pair; the run that then emits it leaves it so. -/
theorem emitted_stays_matched : ¬ ∀ (w w' : Ledger) (h : List (Ledger × MappingCall)),
    Run mappingSystem w h w' → w.Consistent →
      Visits Precedence h w' ∧ Meets NeverDemotes h ∧ Meets NeverPrunes h := by
  intro hall
  have hr := run_of_replay (i:=fun _ => True) (f:=fun w call => some (w.apply call))
    (l:=[.sweep matchingRuntime 0 tablesEstate,.run tablesRun]) (.refl (s:=sampleLedger)) rfl
  have hv := (hall _ _ _ hr sampleLedger_consistent).1
  refine not_precedence sampleLedger_consistent.sweep (fun hg => ?_) hv.1
  exact Derivation.noConfusion (hg rfl sampleTable (List.mem_singleton.mpr rfl) .matched rfl)

end Law

end Ingestion
end Dataspoke
